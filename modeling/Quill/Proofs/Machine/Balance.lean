import Quill.Proofs.Code.Depth
import Quill.Proofs.Machine.Isolation

/-! # Runs have the depths of their code

Where the code of an image has a depth at every position (`Charted`), every frame of a run has as
many operands as the depth at its position says; a frame that waits lacks the result it waits for
(`Stacked`).  So an instruction always finds its operands, and only a return can fail for the
operands that are there, at a position whose depth is not that of a result (`Fails.uneven`). -/

namespace Quill.Machine

open Code

section

variable (p : Image) (D : Method → Nat → Nat)

/-- There is a depth at every position of the methods with code. -/
structure Charted : Prop where
  start : ∀ (id : Nat) m, p.methods[id]? = some m → m.host = none → D m 0 = 0
  steady : ∀ (id : Nat) m, p.methods[id]? = some m → m.host = none →
    ∀ pc i, m.code[pc]? = some i → Steady p m (D m) pc i

/-- The frames have the operands of their positions on a stack of some height, apart from those
that are still due. -/
def Stacked : Nat → Nat → List Frame → Prop
  | _, _, [] => True
  | height, due, f :: cs =>
    ∃ m, p.methods[f.method]? = some m ∧ m.host = none ∧ f.base ≤ height ∧
      height - f.base + due = D m f.pc ∧ Stacked f.base (valueCount m.returnsValue) cs

/-- All frames have the operands of their positions. -/
def Level (s : State) : Prop := Stacked p D s.stack.size 0 s.frames

/-- The fault is that of a return at a position whose depth is not that of a result. -/
def Uneven (e : Fault) (s : State) : Prop :=
  ∃ m pc, p.methods[s.frame.method]? = some m ∧ m.host = none ∧ s.frame.pc = pc + 1 ∧
    m.code[pc]? = some .ret ∧ D m pc ≠ valueCount m.returnsValue ∧
    e = .stackImbalance m.name (D m pc) (valueCount m.returnsValue)

end

section

variable {p : Image} {D : Method → Nat → Nat}

theorem Stacked.paid {height due : Nat} {cs : List Frame} (h : Stacked p D height due cs) :
    Stacked p D (height + due) 0 cs := by
  cases cs with
  | nil => trivial
  | cons f cs =>
    obtain ⟨m, hm, hhost, hbase, hdepth, hcs⟩ := h
    exact ⟨m, hm, hhost, by omega, by omega, hcs⟩

theorem level_start (hD : Charted p D) {heap : Heap} {console : Console} {method : Nat}
    {args : List Value} {s : State} (h : start p heap console method args = .ok s) :
    Level p D s := by
  unfold start at h
  split at h
  · cases h
  · next m hm =>
    cases h
    obtain ⟨hid, hhost⟩ := callee_spec hm
    exact ⟨m, hid, hhost, Nat.le_refl 0, (hD.start method m hid hhost).symm, trivial⟩

variable {low ops : List Value} {f : Frame} {cs : List Frame} {n : Nat} {w : World}

/-- The parts of a state in which all frames have their operands. -/
theorem Level.parts (h : Level p D (.of low ops f cs n w)) (hf : f.base = low.length) :
    ∃ m, p.methods[f.method]? = some m ∧ m.host = none ∧ ops.length = D m f.pc ∧
      Stacked p D low.length (valueCount m.returnsValue) cs := by
  rw [Level, State.size_of, State.frames_of] at h
  obtain ⟨m, hm, hhost, -, hdepth, hcs⟩ := h
  rw [hf] at hdepth hcs
  exact ⟨m, hm, hhost, by omega, hcs⟩

theorem level_of {m : Method} (hf : f.base = low.length) (hm : p.methods[f.method]? = some m)
    (hhost : m.host = none) (hdepth : ops.length = D m f.pc)
    (hcs : Stacked p D low.length (valueCount m.returnsValue) cs) :
    Level p D (.of low ops f cs n w) := by
  rw [Level, State.size_of, State.frames_of]
  refine ⟨m, hm, hhost, by omega, by omega, ?_⟩
  rw [hf]
  exact hcs

end

section

variable {σ : Type} {u : Setup} {o : Observer σ} {D : Method → Nat → Nat}

/-- A step keeps the depths, and it fails only as a return does. -/
theorem level_advance (hD : Charted u.image D) {r : Run σ} (ho : Orderly r.state)
    (h : Level u.image D r.state) :
    (advance u o r).Holds (fun r => Level u.image D r.state) fun outcome r => ∀ e,
      outcome = .error e → e.isStack = true → u.hosts.Raises e ∨ Uneven u.image D e r.state := by
  obtain ⟨low, ops, f, cs, n, w, hs, hf, hadv⟩ := ho.advances (u := u) (o := o)
  rw [hs] at h
  obtain ⟨m, hm, hhost, hdepth, hcs⟩ := h.parts hf
  have hsteady := hD.steady f.method m hm hhost f.pc
  have hmethod : ∀ {m' i}, At u f m' i → m' = m := fun hat =>
    Option.some.inj (hat.1.symm.trans hm)
  generalize advance u o r = next at hadv ⊢
  cases hadv with
  | @moved _ i ops' f' _ _ _ hat _ _ hfollows _ hlen hs' =>
    obtain rfl := hmethod hat
    have hnext := (hsteady i hat.2).next f'.pc hfollows.pc
    show Level _ _ _
    rw [hs']
    refine level_of (hfollows.base.trans hf) ?_ hhost ?_ hcs
    · rw [hfollows.method]
      exact hm
    · rw [hlen, hnext, hdepth]
  | @entered _ c id _ args rest _ _ _ hat hc hops hs' =>
    obtain rfl := hmethod hat
    obtain ⟨hid, hchost⟩ := callee_spec hc
    have hnext := (hsteady _ hat.2).next (f.pc + 1) (.next rfl _)
    rw [effect_call hc, ← hdepth, hops, List.length_append] at hnext
    show Level _ _ _
    rw [hs']
    refine level_of rfl hid hchost (hD.start id c hid hchost).symm ?_
    refine ⟨_, hm, hhost, ?_, ?_, ?_⟩
    · simp only [Frame.base_to, List.length_append]
      omega
    · rw [Frame.pc_to, hnext, Frame.base_to, List.length_append, List.length_reverse, hf]
      show _ = args.length + rest.length - args.length + valueCount c.returnsValue
      omega
    · rw [Frame.base_to, hf]
      exact hcs
  | left hat hlen hstack hframes =>
    obtain rfl := hmethod hat
    show Level _ _ _
    have hsize : (low ++ ops.reverse).toArray.size = low.length + ops.length := by simp
    rw [Level, State.frames, hframes, hstack, hsize, hlen]
    exact hcs.paid
  | done _ _ _ _ => exact fun e he => by cases he
  | @failed e ops' pc _ _ _ hs' hfault =>
    intro e' he hstack
    cases he
    refine (hfault hstack).imp_right ?_
    rintro ⟨m', i, hat, hcase⟩
    obtain rfl := hmethod hat
    rcases hcase with ⟨-, hlt⟩ | ⟨rfl, rfl, hne, rfl⟩
    · exact absurd hlt (Nat.not_lt.mpr (hdepth ▸ (hsteady i hat.2).pops))
    · rw [hdepth] at hne ⊢
      rw [hs']
      exact ⟨m', f.pc, hm, hhost, rfl, hat.2, hne, rfl⟩

theorem Progress.Holds.and {I I' : Run σ → Prop} {Q Q' : Outcome → Run σ → Prop} {x : Progress σ}
    (h : x.Holds I Q) (h' : x.Holds I' Q') :
    x.Holds (fun r => I r ∧ I' r) fun outcome r => Q outcome r ∧ Q' outcome r := by
  cases x with
  | ended outcome r => exact ⟨h, h'⟩
  | running r => exact ⟨h, h'⟩

/-- A run from the start of some method ends in the fault. -/
def Fails (u : Setup) (o : Observer σ) (e : Fault) (r : Run σ) : Prop :=
  ∃ heap console method args s seen k, start u.image heap console method args = .ok s ∧
    go u o k ⟨s, 0, seen⟩ = .ended (.error e) r

/-- Of the faults of the stack, a run can only end in that of a return, or in one that a routine of
the host has made up. -/
theorem Fails.uneven (hD : Charted u.image D) {e : Fault} {r : Run σ} (h : Fails u o e r)
    (he : e.isStack = true) : u.hosts.Raises e ∨ Uneven u.image D e r.state := by
  obtain ⟨heap, console, method, args, s, seen, k, hs, hgo⟩ := h
  have hinv := go_invariant (u := u) (o := o)
    (fun r hr => (orderly_advance hr.1).and (level_advance hD hr.1 hr.2)) k ⟨s, 0, seen⟩
    ⟨orderly_start hs, level_start hD hs⟩
  rw [hgo] at hinv
  exact hinv.2 e rfl he

end

/-! ### The standard routines -/

/-- The routines of a command-line run do not tell of the stack. -/
theorem not_raises_standard {e : Fault} (he : e.isStack = true) : ¬ Hosts.standard.Raises e := by
  rintro ⟨r, action, args, as, hfind, hact⟩
  have hmild : Mild (action args as) := (plain_standard hfind args as).mild
  rw [hmild e hact] at he
  cases he

end Quill.Machine
