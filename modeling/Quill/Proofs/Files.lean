import Quill.Files
import Quill.Proofs.Lowering.Growth

/-! # Writing a file again

Whether a path can be written does not depend on the content (`write_content`), and a path that was
written can be written again (`write_again`): a file takes the place of a file or of nothing, so
every directory on the way of the path is still there. -/

namespace Quill.Files

open Lowering (bind_eq_ok)

variable {f f' : Files} {p q d : Place} {text : String} {content : List UInt8}

/-- A directory stays when a file is put at a place that is none. -/
theorem entry_insert_directory (hq : f.entry q = .directory) (hp : f.entry p ≠ .directory)
    (content : List UInt8) : (f.insert p content).entry q = .directory := by
  have hne : q ≠ p := fun heq => hp (heq ▸ hq)
  have hbeq : (q == p) = false := beq_eq_false_iff_ne.mpr hne
  unfold entry at hq ⊢
  cases hlook : f.entries.lookup q with
  | some old =>
    rw [hlook] at hq
    cases hq
  | none =>
    have hnone : (f.insert p content).entries.lookup q = none := by
      rw [List.lookup_eq_none_iff] at hlook
      rw [insert, List.lookup_cons, hbeq, List.lookup_eq_none_iff]
      exact fun x hx => hlook x (List.mem_of_mem_filter hx)
    rw [hlook] at hq
    rw [hnone]
    dsimp only at hq ⊢
    have hthere : (q.names.isEmpty || f.entries.any (·.1.isBelow q)) = true := by
      by_contra hnot
      rw [if_neg hnot] at hq
      cases hq
    refine if_pos ?_
    rw [Bool.or_eq_true, List.any_eq_true] at hthere ⊢
    refine hthere.imp_right ?_
    rintro ⟨x, hx, hbelow⟩
    by_cases hxp : x.1 = p
    · exact ⟨(p, content), List.mem_cons_self, hxp ▸ hbelow⟩
    · exact ⟨x, List.mem_cons_of_mem _ (List.mem_filter.mpr ⟨hx, by simpa using hxp⟩), hbelow⟩

theorem look_insert_directory {name : String} (hlook : f.look q name = .ok .directory)
    (hp : f.entry p ≠ .directory) (content : List UInt8) :
    (f.insert p content).look q name = .ok .directory := by
  unfold look at hlook ⊢
  split at hlook
  · cases hlook
  · next hname =>
    rw [if_neg hname, entry_insert_directory (Except.ok.inj hlook) hp]

theorem descend_insert (hp : f.entry p ≠ .directory) (content : List UInt8) :
    ∀ (steps : List Step) {q : Place}, f.descend q steps = .ok d →
      (f.insert p content).descend q steps = .ok d
  | [], _, h => h
  | .stay :: rest, _, h => descend_insert hp content rest h
  | .up :: rest, _, h => descend_insert hp content rest h
  | .enter name :: rest, q, h => by
    unfold descend at h ⊢
    cases hlook : f.look q name with
    | error fault =>
      rw [hlook] at h
      cases h
    | ok entry =>
      rw [hlook] at h
      cases entry with
      | file _ => cases h
      | nothing => cases h
      | directory =>
        rw [look_insert_directory hlook hp]
        exact descend_insert hp content rest h

theorem goal_insert {g : Goal} (h : f.goal text = .ok g) (hp : f.entry p ≠ .directory)
    (content : List UInt8) : (f.insert p content).goal text = .ok g := by
  obtain ⟨path, hpath, h⟩ := bind_eq_ok.mp h
  obtain ⟨directory, hdescend, h⟩ := bind_eq_ok.mp h
  refine bind_eq_ok.mpr ⟨path, hpath, bind_eq_ok.mpr ⟨directory, ?_, h⟩⟩
  exact descend_insert hp content _ hdescend

/-- A path can be written if its last step enters a name at which no directory stands. -/
theorem write_eq_ok : f.write text content = .ok f' ↔ ∃ g name, f.goal text = .ok g ∧
    g.last = .enter name ∧ g.slashAtEnd = false ∧ ¬ nameLimit < name.utf8ByteSize ∧
    f.entry (g.directory.child name) ≠ .directory ∧
    f' = f.insert (g.directory.child name) content := by
  constructor
  · intro h
    obtain ⟨g, hg, h⟩ := bind_eq_ok.mp h
    cases hlast : g.last with
    | stay =>
      rw [hlast] at h
      cases h
    | up =>
      rw [hlast] at h
      cases h
    | enter name =>
      rw [hlast] at h
      cases hslash : g.slashAtEnd with
      | true =>
        rw [hslash] at h
        cases h
      | false =>
        rw [hslash] at h
        obtain ⟨entry, hlook, h⟩ := bind_eq_ok.mp h
        unfold look at hlook
        split at hlook
        · cases hlook
        · next hname =>
          obtain rfl := Except.ok.inj hlook
          cases hentry : f.entry (g.directory.child name) with
          | directory =>
            rw [hentry] at h
            cases h
          | file _ | nothing =>
            rw [hentry] at h
            refine ⟨g, name, hg, hlast, hslash, hname, ?_, (Except.ok.inj h).symm⟩
            rw [hentry]
            intro hdir
            cases hdir
  · rintro ⟨g, name, hg, hlast, hslash, hname, hentry, rfl⟩
    refine bind_eq_ok.mpr ⟨g, hg, ?_⟩
    rw [hlast, hslash]
    refine bind_eq_ok.mpr ⟨_, if_neg hname, ?_⟩
    cases hthere : f.entry (g.directory.child name) with
    | directory => exact absurd hthere hentry
    | file _ => rfl
    | nothing => rfl

/-- Whether a path can be written, and why not, does not depend on what is written. -/
theorem write_content (f : Files) (text : String) (content content' : List UInt8) :
    (f.write text content).map (fun _ => ()) = (f.write text content').map fun _ => () := by
  unfold write
  cases f.goal text with
  | error fault => rfl
  | ok g =>
    obtain ⟨directory, last, slashAtEnd⟩ := g
    cases last with
    | stay => rfl
    | up => rfl
    | enter name =>
      cases slashAtEnd with
      | true => rfl
      | false =>
        show Except.map _ (f.look directory name >>= _) = Except.map _ (f.look directory name >>= _)
        cases f.look directory name with
        | error fault => rfl
        | ok entry => cases entry <;> rfl

theorem write_again (h : f.write text content = .ok f') (content' : List UInt8) :
    ∃ f'', f'.write text content' = .ok f'' := by
  obtain ⟨g, name, hg, hlast, hslash, hname, hentry, rfl⟩ := write_eq_ok.mp h
  refine ⟨_, write_eq_ok.mpr
    ⟨g, name, goal_insert hg hentry content, hlast, hslash, hname, ?_, rfl⟩⟩
  rw [entry_insert]
  intro hdir
  cases hdir

end Quill.Files
