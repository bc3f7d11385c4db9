import Quill.Proofs.Machine.Limit

/-! # The course of a run

The states in which a run carries out its instructions, one after the other, are its course
(`course`).  An instruction that is not found, or that the limit refuses, is not carried out.  How
often something happens in a run is how many states of the course it happens in; `passes` counts
the markers of a label that frames of one method have passed. -/

namespace Quill.Machine

open Code

/-- The instruction that the current frame has come to. -/
def State.instr? (p : Image) (s : State) : Option Instr :=
  p.methods[s.frame.method]?.bind (·.code[s.frame.pc]?)

/-- The instruction that the run carries out next, if it finds one and the limit allows it. -/
def Setup.due (u : Setup) (r : Run σ) : Option Instr :=
  if (u.exceeded (r.steps + 1)).isSome then none else r.state.instr? u.image

/-- The states in which at most so many instructions of a run are carried out. -/
def course (u : Setup) (o : Observer σ) : Nat → Run σ → List State
  | 0, _ => []
  | k + 1, r =>
    match u.due r with
    | none => []
    | some _ =>
      r.state :: match advance u o r with
        | .ended _ _ => []
        | .running r' => course u o k r'

/-- How often frames of a method have passed the marker of a label. -/
def passes (p : Image) (id label : Nat) (h : List State) : Nat :=
  h.countP fun s => s.frame.method = id ∧ s.instr? p = some (.label label)

/-- The end of a run that has ended well and without a result. -/
def Progress.done? : Progress σ → Option (Run σ)
  | .ended (.ok none) r => some r
  | _ => none

section

variable {σ : Type} {u : Setup} {o : Observer σ}

theorem done?_eq_some {x : Progress σ} {r : Run σ} :
    x.done? = some r ↔ x = .ended (.ok none) r := by
  unfold Progress.done?
  split
  · simp
  · next hother =>
    constructor
    · intro h
      cases h
    · rintro rfl
      exact absurd rfl (hother r)

theorem instr?_eq_some {p : Image} {s : State} {i : Instr} :
    s.instr? p = some i ↔ ∃ m, p.methods[s.frame.method]? = some m ∧ m.code[s.frame.pc]? = some i :=
  Option.bind_eq_some_iff

theorem due_eq_some {r : Run σ} {i : Instr} :
    u.due r = some i ↔ u.exceeded (r.steps + 1) = none ∧ ∃ m, At u r.state.frame m i := by
  unfold Setup.due
  cases h : u.exceeded (r.steps + 1) with
  | some n => simp
  | none => simp [instr?_eq_some, At]

/-- Without a next instruction the run ends in a fault, and nothing is seen. -/
theorem advance_of_due_eq_none {r : Run σ} (h : u.due r = none) :
    ∃ e steps, advance u o r = .ended (.error e) { r with steps } := by
  obtain ⟨s, steps, seen⟩ := r
  rcases lost_or_at (σ := σ) u s with ⟨e, he⟩ | ⟨m, i, hat⟩
  · exact ⟨e, steps, he u.limit o steps seen⟩
  · cases hlim : u.exceeded (steps + 1) with
    | none =>
      rw [due_eq_some.mpr ⟨hlim, m, hat⟩] at h
      cases h
    | some n => exact ⟨_, steps + 1, advance_exceeded hat.1 hat.2 hlim⟩

/-- What every instruction that is carried out keeps, given the course so far, is kept by runs; and
so it is known how they end, be it for want of an instruction to carry out. -/
theorem course_invariant {I : List State → Run σ → Prop} {Q : List State → Outcome → Run σ → Prop}
    (hstep : ∀ h r i, I h r → u.due r = some i →
      (advance u o r).Holds (I (h ++ [r.state])) (Q (h ++ [r.state])))
    (hstuck : ∀ h r e steps, I h r → u.due r = none → Q h (.error e) { r with steps }) :
    ∀ (k : Nat) (r : Run σ) (h : List State), I h r →
      (go u o k r).Holds (I (h ++ course u o k r)) (Q (h ++ course u o k r)) := by
  intro k
  induction k with
  | zero =>
    intro r h hr
    rw [course, List.append_nil]
    exact hr
  | succ k ih =>
    intro r h hr
    rw [go, course]
    cases hdue : u.due r with
    | none =>
      obtain ⟨e, steps, hadv⟩ := advance_of_due_eq_none (o := o) hdue
      rw [hadv, List.append_nil]
      exact hstuck h r e steps hr hdue
    | some i =>
      have hnext := hstep h r i hr hdue
      cases hadv : advance u o r with
      | ended outcome r' =>
        rw [hadv] at hnext
        exact hnext
      | running r' =>
        rw [hadv] at hnext
        dsimp only
        rw [List.append_cons]
        exact ih r' _ hnext

end

namespace Call

variable (c : Call)

/-- The states in which at most so many instructions of the call are carried out. -/
def course (limit : Option Nat) (fuel : Nat) : List State :=
  match start c.image c.heap c.console c.method c.args with
  | .error _ => []
  | .ok state =>
    Machine.course ⟨c.image, c.hosts, limit⟩ LabelCounter.observer fuel
      { state, steps := 0, seen := .zero }

/-- What every instruction that is carried out keeps is kept by calls. -/
theorem course_invariant {c : Call} (limit : Option Nat) {I : List State → Run LabelCounter → Prop}
    {Q : List State → Outcome → Run LabelCounter → Prop}
    (hstart : ∀ s, start c.image c.heap c.console c.method c.args = .ok s → I [] ⟨s, 0, .zero⟩)
    (hfail : ∀ e s, Q [] (.error e) ⟨s, 0, .zero⟩)
    (hstep : ∀ h r i, I h r → Setup.due ⟨c.image, c.hosts, limit⟩ r = some i →
      (advance ⟨c.image, c.hosts, limit⟩ LabelCounter.observer r).Holds (I (h ++ [r.state]))
        (Q (h ++ [r.state])))
    (hstuck : ∀ h r e steps, I h r → Setup.due ⟨c.image, c.hosts, limit⟩ r = none →
      Q h (.error e) { r with steps }) (fuel : Nat) :
    (c.run limit fuel).Holds (I (c.course limit fuel)) (Q (c.course limit fuel)) := by
  unfold run course
  cases hs : start c.image c.heap c.console c.method c.args with
  | error e => exact hfail e _
  | ok s => exact Machine.course_invariant hstep hstuck fuel _ [] (hstart s hs)

end Call

end Quill.Machine
