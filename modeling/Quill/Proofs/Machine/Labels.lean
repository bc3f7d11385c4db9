import Quill.Proofs.Compiled
import Quill.Proofs.Machine.Course

/-! # What label counters count

A counter keeps its counts in the order of method names and labels, so that each name and label has
one count (`hitsOf_bump`).  It knows a method by its name alone.  So after a call it has, for each
label, the passes of the methods of a name together (`hits_eq_passes`): the count of a method is its
own exactly if no other method of its name has passed a label of the same number.  Methods of one
name are told apart by their number of arguments, and each numbers its labels from zero. -/

namespace Quill.Machine

open Code Lowering Typing

/-! ### Counts in order -/

/-- The count comes before those of a label of a method. -/
def Hit.Before (h : Hit) (method : String) (label : Nat) : Prop :=
  h.method < method ∨ h.method = method ∧ h.label < label

/-- The counts are in the order of method names and labels. -/
def Ordered (hits : List Hit) : Prop := hits.Pairwise fun h h' => h.Before h'.method h'.label

theorem Hit.Before.trans {h h' : Hit} {method : String} {label : Nat}
    (hh : h.Before h'.method h'.label) (hh' : h'.Before method label) : h.Before method label := by
  rcases hh with hlt | ⟨heq, hlt⟩
  · rcases hh' with hlt' | ⟨heq', -⟩
    · exact .inl (String.lt_trans hlt hlt')
    · exact .inl (heq' ▸ hlt)
  · rcases hh' with hlt' | ⟨heq', hlt'⟩
    · exact .inl (heq ▸ hlt')
    · exact .inr ⟨heq.trans heq', Nat.lt_trans hlt hlt'⟩

theorem Hit.Before.ne {h : Hit} {method : String} {label : Nat} (hh : h.Before method label) :
    ¬ (h.method = method ∧ h.label = label) := by
  rintro ⟨rfl, rfl⟩
  rcases hh with hlt | ⟨-, hlt⟩
  · exact String.lt_irrefl _ hlt
  · exact Nat.lt_irrefl _ hlt

/-- Where one more pass is counted: with the count of the label, before a later count, or behind an
earlier one. -/
theorem bump_cons (method : String) (label : Nat) (h : Hit) (rest : List Hit) :
    LabelCounter.bump method label (h :: rest) =
        { h with count := h.count + 1 } :: rest ∧ h.method = method ∧ h.label = label ∨
      LabelCounter.bump method label (h :: rest) = ⟨method, label, 1⟩ :: h :: rest ∧
        (Hit.mk method label 1).Before h.method h.label ∨
      LabelCounter.bump method label (h :: rest) = h :: LabelCounter.bump method label rest ∧
        h.Before method label := by
  rw [LabelCounter.bump]
  split
  · next hname =>
    split
    · next hlabel => exact .inl ⟨rfl, hname, hlabel⟩
    · next hlabel =>
      split
      · next hlt => exact .inr (.inl ⟨rfl, .inr ⟨hname.symm, hlt⟩⟩)
      · next hlt => exact .inr (.inr ⟨rfl, .inr ⟨hname, by omega⟩⟩)
  · next hname =>
    split
    · next hlt => exact .inr (.inl ⟨rfl, .inl hlt⟩)
    · next hlt => exact .inr (.inr ⟨rfl, .inl (Std.lt_of_le_of_ne (String.not_lt.mp hlt) hname)⟩)

/-- What holds of a label and of all labels with a count holds of them with one more pass. -/
theorem forall_bump {P : String → Nat → Prop} {method : String} {label : Nat} {hits : List Hit}
    (hkey : P method label) (h : ∀ x ∈ hits, P x.method x.label) :
    ∀ x ∈ LabelCounter.bump method label hits, P x.method x.label := by
  induction hits with
  | nil => simpa [LabelCounter.bump] using hkey
  | cons hit rest ih =>
    obtain ⟨hhit, hrest⟩ := List.forall_mem_cons.mp h
    rcases bump_cons method label hit rest with ⟨heq, -⟩ | ⟨heq, -⟩ | ⟨heq, -⟩
    · rw [heq]
      exact List.forall_mem_cons.mpr ⟨hhit, hrest⟩
    · rw [heq]
      exact List.forall_mem_cons.mpr ⟨hkey, h⟩
    · rw [heq]
      exact List.forall_mem_cons.mpr ⟨hhit, ih hrest⟩

theorem Ordered.bump {hits : List Hit} (h : Ordered hits) (method : String) (label : Nat) :
    Ordered (LabelCounter.bump method label hits) := by
  induction hits with
  | nil => simp [LabelCounter.bump, Ordered]
  | cons hit rest ih =>
    obtain ⟨hhit, hrest⟩ := List.pairwise_cons.mp h
    rcases bump_cons method label hit rest with ⟨heq, -⟩ | ⟨heq, hbefore⟩ | ⟨heq, hbefore⟩
    · rw [heq]
      exact List.pairwise_cons.mpr ⟨hhit, hrest⟩
    · rw [heq]
      refine List.pairwise_cons.mpr ⟨?_, h⟩
      exact List.forall_mem_cons.mpr ⟨hbefore, fun x hx => hbefore.trans (hhit x hx)⟩
    · rw [heq]
      exact List.pairwise_cons.mpr ⟨forall_bump hbefore hhit, ih hrest⟩

namespace LabelCounter

theorem hitsOf_nil (steps : Nat) (method : String) (label : Nat) :
    hitsOf ⟨[], steps⟩ method label = 0 := rfl

theorem hitsOf_cons (h : Hit) (rest : List Hit) (steps : Nat) (method : String) (label : Nat) :
    hitsOf ⟨h :: rest, steps⟩ method label =
      if h.method = method ∧ h.label = label then h.count
      else hitsOf ⟨rest, steps⟩ method label := by
  unfold hitsOf
  rw [List.find?_cons]
  by_cases hkey : h.method = method ∧ h.label = label
  · simp [hkey]
  · simp [hkey]

theorem hitsOf_of_before {method : String} {label : Nat} {hits : List Hit} {steps : Nat}
    (h : ∀ x ∈ hits, (Hit.mk method label 1).Before x.method x.label) :
    hitsOf ⟨hits, steps⟩ method label = 0 := by
  induction hits with
  | nil => rfl
  | cons hit rest ih =>
    obtain ⟨hhit, hrest⟩ := List.forall_mem_cons.mp h
    rw [hitsOf_cons, if_neg, ih hrest]
    rintro ⟨rfl, rfl⟩
    exact hhit.ne ⟨rfl, rfl⟩

theorem hitsOf_bump {hits : List Hit} (h : Ordered hits) (steps : Nat) (method name : String)
    (label l : Nat) :
    hitsOf ⟨bump method label hits, steps⟩ name l =
      hitsOf ⟨hits, steps⟩ name l + if method = name ∧ label = l then 1 else 0 := by
  induction hits with
  | nil =>
    rw [bump, hitsOf_cons, hitsOf_nil]
    simp
  | cons hit rest ih =>
    obtain ⟨hhit, hrest⟩ := List.pairwise_cons.mp h
    rcases bump_cons method label hit rest with ⟨heq, rfl, rfl⟩ | ⟨heq, hbefore⟩ | ⟨heq, hbefore⟩
    · rw [heq, hitsOf_cons, hitsOf_cons]
      by_cases hkey : hit.method = name ∧ hit.label = l
      · simp [hkey]
      · simp [hkey]
    · rw [heq, hitsOf_cons]
      by_cases hkey : method = name ∧ label = l
      · obtain ⟨rfl, rfl⟩ := hkey
        have hnone : hitsOf ⟨hit :: rest, steps⟩ method label = 0 :=
          hitsOf_of_before
            (List.forall_mem_cons.mpr ⟨hbefore, fun x hx => hbefore.trans (hhit x hx)⟩)
        simp [hnone]
      · simp [hkey]
    · rw [heq, hitsOf_cons, hitsOf_cons, ih hrest]
      by_cases hkey : hit.method = name ∧ hit.label = l
      · have hother : ¬ (method = name ∧ label = l) := by
          rintro ⟨rfl, rfl⟩
          exact hbefore.ne hkey
        simp [hkey, hother]
      · simp [hkey]

end LabelCounter

/-! ### Counts of calls -/

/-- How often methods of a name have passed the marker of a label. -/
def namedPasses (p : Image) (name : String) (label : Nat) (h : List State) : Nat :=
  h.countP fun s => (p.methods[s.frame.method]?).map Method.name = some name ∧
    s.instr? p = some (.label label)

/-- How often other methods of the name of a method have passed the marker of a label. -/
def strayPasses (p : Image) (id : Nat) (name : String) (label : Nat) (h : List State) : Nat :=
  h.countP fun s => s.frame.method ≠ id ∧
    (p.methods[s.frame.method]?).map Method.name = some name ∧ s.instr? p = some (.label label)

/-- The passes of the methods of a name are those of one of them and those of the others. -/
theorem namedPasses_eq {p : Image} {id : Nat} {m : Method} (hm : p.methods[id]? = some m)
    (label : Nat) (h : List State) :
    namedPasses p m.name label h = passes p id label h + strayPasses p id m.name label h := by
  unfold namedPasses passes strayPasses
  induction h with
  | nil => rfl
  | cons s h ih =>
    rw [List.countP_cons, List.countP_cons, List.countP_cons, ih]
    by_cases hid : s.frame.method = id
    · simp [hid, hm]
      omega
    · simp [hid]
      omega

/-- The counter has what the course says, by the names of methods. -/
structure Tallied (p : Image) (h : List State) (r : Run LabelCounter) : Prop where
  ordered : Ordered r.seen.hits
  hits : ∀ name label, r.seen.hitsOf name label = namedPasses p name label h

theorem Tallied.see {p : Image} {h : List State} {r : Run LabelCounter} (hr : Tallied p h r)
    {m : Method} (hm : p.methods[r.state.frame.method]? = some m) {i : Instr}
    (hi : r.state.instr? p = some i) {r' : Run LabelCounter}
    (hseen : r'.seen = LabelCounter.observer.see r.seen m r.state.frame.pc i) :
    Tallied p (h ++ [r.state]) r' := by
  obtain ⟨s, steps, hits, count⟩ := r
  by_cases hlabel : ∃ l, i = .label l
  · obtain ⟨l, rfl⟩ := hlabel
    have hbumped : r'.seen = ⟨LabelCounter.bump m.name l hits, count + 1⟩ := hseen
    constructor
    · rw [hbumped]
      exact hr.ordered.bump m.name l
    · intro name label
      have hold := hr.hits name label
      rw [hbumped, LabelCounter.hitsOf_bump hr.ordered]
      unfold namedPasses at hold ⊢
      rw [List.countP_append, ← hold, List.countP_singleton]
      congr 1
      simp [hm, hi]
  · have hsame : r'.seen = ⟨hits, count + 1⟩ := by
      rw [hseen]
      cases i with
      | label l => exact absurd ⟨l, rfl⟩ hlabel
      | _ => rfl
    constructor
    · rw [hsame]
      exact hr.ordered
    · intro name label
      have hold := hr.hits name label
      have hother : i ≠ .label label := fun h => hlabel ⟨label, h⟩
      unfold namedPasses at hold ⊢
      rw [hsame, List.countP_append, ← hold, List.countP_singleton]
      simp [hi, hother, LabelCounter.hitsOf]

/-- A call leaves its counter with what its course says. -/
theorem Call.tallied (c : Call) (limit : Option Nat) (fuel : Nat) :
    (c.run limit fuel).Holds (Tallied c.image (c.course limit fuel))
      fun _ => Tallied c.image (c.course limit fuel) := by
  have hzero : ∀ s, Tallied c.image [] ⟨s, 0, .zero⟩ := fun s => ⟨.nil, fun _ _ => rfl⟩
  refine c.course_invariant limit (Q := fun h _ => Tallied c.image h) (fun s _ => hzero s)
    (fun _ => hzero) ?_ (fun h r _ _ hr _ => ⟨hr.ordered, hr.hits⟩) fuel
  intro h r i hr hdue
  obtain ⟨hlim, m, hat⟩ := due_eq_some.mp hdue
  have hi : r.state.instr? c.image = some i := instr?_eq_some.mpr ⟨m, hat⟩
  have htold := advance_told (o := LabelCounter.observer) hat r.seen hlim
  generalize advance _ _ r = next at htold ⊢
  cases next with
  | ended outcome r' => exact hr.see hat.1 hi htold.2
  | running r' => exact hr.see hat.1 hi htold.2

/-- **The count of a label** that a call is left with is that of all methods of the name together.
It is that of the method alone exactly if no other method of its name has passed a label of the same
number, so always if there is no other method of its name. -/
theorem hits_eq_passes (c : Call) (limit : Option Nat) {fuel : Nat} {outcome : Outcome}
    {r : Run LabelCounter} (hrun : c.run limit fuel = .ended outcome r) {id : Nat} {m : Method}
    (hm : c.image.methods[id]? = some m) (label : Nat) :
    r.seen.hitsOf m.name label = passes c.image id label (c.course limit fuel) +
        strayPasses c.image id m.name label (c.course limit fuel) ∧
      (r.seen.hitsOf m.name label = passes c.image id label (c.course limit fuel) ↔
        ∀ s ∈ c.course limit fuel, s.instr? c.image = some (.label label) →
          (c.image.methods[s.frame.method]?).map Method.name = some m.name →
            s.frame.method = id) ∧
      ((∀ id' m', c.image.methods[id']? = some m' → m'.name = m.name → id' = id) →
        r.seen.hitsOf m.name label = passes c.image id label (c.course limit fuel)) := by
  have htallied := c.tallied limit fuel
  rw [hrun] at htallied
  have hsum := (htallied.hits m.name label).trans (namedPasses_eq hm label _)
  have hiff : strayPasses c.image id m.name label (c.course limit fuel) = 0 ↔
      ∀ s ∈ c.course limit fuel, s.instr? c.image = some (.label label) →
        (c.image.methods[s.frame.method]?).map Method.name = some m.name →
          s.frame.method = id := by
    unfold strayPasses
    rw [List.countP_eq_zero]
    constructor
    · intro h s hs hi hname
      by_contra hne
      exact h s hs (by simp [hne, hname, hi])
    · intro h s hs hstray
      obtain ⟨hne, hname, hi⟩ := of_decide_eq_true hstray
      exact hne (h s hs hi hname)
  refine ⟨hsum, ?_, fun hunique => ?_⟩
  · rw [← hiff]
    omega
  · have hnone := hiff.mpr fun s _ _ hname => by
      obtain ⟨m', hm', hname'⟩ := Option.map_eq_some_iff.mp hname
      exact hunique _ m' hm' hname'
    omega

/-- The echo passes its label once. -/
theorem echoCall_hits : ∃ r, echoCall.run none 4 = .ended (.ok none) r ∧
    r.seen.hitsOf "main" 0 = passes echoCall.image 0 0 (echoCall.course none 4) := by
  have hrun : ∃ r, echoCall.run none 4 = .ended (.ok none) r := ⟨_, rfl⟩
  obtain ⟨r, hr⟩ := hrun
  have hmethod : echoCall.image.methods[0]? = some _ := rfl
  refine ⟨r, hr, (hits_eq_passes echoCall none hr hmethod 0).2.2 fun id m hm _ => ?_⟩
  exact Nat.lt_one_iff.mp (Array.getElem?_eq_some_iff.mp hm).1

/-! ### Two methods of one name -/

/-- A function that calls another one of its name, with an `if` in each. -/
def twinsProgram : Program where
  functions := [
    { name := "main", params := [], returnType := .void,
      body := [.ifThen .dummy (.literal default (.boolean true))
        [.expr .dummy (.call default "main" [.literal default (.integer 1)])]],
      external := none, span := .dummy },
    { name := "main", params := [⟨"x", .integer, .dummy⟩], returnType := .void,
      body := [.ifThen .dummy (.literal default (.boolean true)) []],
      external := none, span := .dummy }]
  source := none

def twinsImage : Image where
  methods := #[
    ⟨"main", [], .void, #[], #[.pushInt 1, .branchIfTrue 0, .jump 1, .label 0, .pushInt 1,
      .call 1 1, .label 1, .nop, .ret], #[3, 6], none⟩,
    ⟨"main", [.integer], .void, #[], #[.pushInt 1, .branchIfTrue 0, .jump 1, .label 0, .label 1,
      .nop, .ret], #[3, 4], none⟩]
  strings := #[]
  hostRoutines := #[]
  entry := some 0

theorem twinsProgram_compiled : Compiles twinsProgram twinsImage where
  clean := by
    unfold Clean
    decide +kernel
  lowered := by decide +kernel
  entry := by decide +kernel

def twinsCall : Call := ⟨twinsImage, [], .bare, .ofLines [], 0, []⟩

/-- Each of the two methods passes its first label once, and the counter has two passes of it for
either of them. -/
theorem twinsCall_mixed : Compiles twinsProgram twinsImage ∧
    twinsImage.methods.map Method.name = #["main", "main"] ∧
    passes twinsImage 0 0 (twinsCall.course none 14) = 1 ∧
    passes twinsImage 1 0 (twinsCall.course none 14) = 1 ∧
    ∃ r, twinsCall.run none 14 = .ended (.ok none) r ∧ r.seen.hitsOf "main" 0 = 2 := by
  have hrun : (twinsCall.run none 14).done?.map (·.seen.hitsOf "main" 0) = some 2 := by
    decide +kernel
  obtain ⟨r, hr, hhits⟩ := Option.map_eq_some_iff.mp hrun
  exact ⟨twinsProgram_compiled, by decide +kernel, by decide +kernel, by decide +kernel, r,
    done?_eq_some.mp hr, hhits⟩

end Quill.Machine
