import Quill.Proofs.Lowering.Layout
import Quill.Proofs.Machine.Advance
import Quill.Proofs.Machine.Typed
import Quill.Proofs.Meaning.Eval

/-! # Runs that follow an evaluation

`Simulates u o n s x Q` says that the run from the state `s` does what the evaluation `x` has done:
where the evaluation has a result, the run comes to a state that `Q` describes; where it has
stopped with a fault, the run ends with that fault and in the same world; and where it has run out
of fuel, the run goes on for `n` instructions at least.  Evaluations that follow each other are
put together with `Simulates.bind`. -/

namespace Quill.Meaning

open Code Machine
open Lowering (TruthCode)

section

variable {σ : Type} (u : Setup) (o : Observer σ)

/-- The run comes from the first state to the second in so many instructions. -/
def Comes (k : Nat) (s s' : State) : Prop :=
  ∀ steps seen, ∃ steps' seen', go u o k ⟨s, steps, seen⟩ = .running ⟨s', steps', seen'⟩

/-- The run from the state ends with an outcome in a world. -/
def Ends (s : State) (outcome : Outcome) (w : World) : Prop :=
  ∀ steps seen, ∃ k r, go u o k ⟨s, steps, seen⟩ = .ended outcome r ∧ r.state.world = w

/-- The run from the state has not ended after so many instructions. -/
def Lasts (k : Nat) (s : State) : Prop :=
  ∀ steps seen, ∃ r, go u o k ⟨s, steps, seen⟩ = .running r

/-- The run from the state does what an evaluation has done. -/
def Simulates (n : Nat) (s : State) (x : EStateM.Result Stop World α)
    (Q : α → World → State → Prop) : Prop :=
  match x with
  | .ok a w => ∃ k s', Comes u o k s s' ∧ Q a w s'
  | .error (.fault e) w => Ends u o s (.error e) w
  | .error .outOfFuel _ => Lasts u o n s
  | .error .stuck _ => False

end

section

variable {σ : Type} {u : Setup} {o : Observer σ} {s s' s'' : State} {j k n : Nat}

/-! ### Runs one after the other -/

theorem Comes.refl (s : State) : Comes u o 0 s s := fun steps seen => ⟨steps, seen, rfl⟩

theorem Comes.trans (h : Comes u o j s s') (h' : Comes u o k s' s'') :
    Comes u o (j + k) s s'' := by
  intro steps seen
  obtain ⟨steps', seen', hgo⟩ := h steps seen
  obtain ⟨steps'', seen'', hgo'⟩ := h' steps' seen'
  refine ⟨steps'', seen'', ?_⟩
  rw [go_add, hgo]
  exact hgo'

theorem Comes.ends (h : Comes u o k s s') {outcome : Outcome} {w : World}
    (h' : Ends u o s' outcome w) : Ends u o s outcome w := by
  intro steps seen
  obtain ⟨steps', seen', hgo⟩ := h steps seen
  obtain ⟨k', r, hgo', hw⟩ := h' steps' seen'
  refine ⟨k + k', r, ?_, hw⟩
  rw [go_add, hgo]
  exact hgo'

theorem Comes.lasts (h : Comes u o k s s') (h' : Lasts u o n s') : Lasts u o (k + n) s := by
  intro steps seen
  obtain ⟨steps', seen', hgo⟩ := h steps seen
  obtain ⟨r, hgo'⟩ := h' steps' seen'
  refine ⟨r, ?_⟩
  rw [go_add, hgo]
  exact hgo'

theorem Lasts.mono (h : Lasts u o n s) (hle : k ≤ n) : Lasts u o k s := by
  intro steps seen
  obtain ⟨r, hgo⟩ := h steps seen
  obtain ⟨d, rfl⟩ := Nat.exists_eq_add_of_le hle
  rw [go_add] at hgo
  cases hk : go u o k ⟨s, steps, seen⟩ with
  | ended outcome r' =>
    rw [hk] at hgo
    cases hgo
  | running r' => exact ⟨r', rfl⟩

/-! ### Evaluations one after the other -/

variable {x : EStateM.Result Stop World α} {Q Q' : α → World → State → Prop}

theorem Comes.simulates (h : Comes u o k s s') (h' : Simulates u o n s' x Q) :
    Simulates u o (k + n) s x Q := by
  unfold Simulates at h' ⊢
  split
  · obtain ⟨j, s'', hj, hQ⟩ := h'
    exact ⟨k + j, s'', h.trans hj, hQ⟩
  · exact h.ends h'
  · exact h.lasts h'
  · exact h'

theorem Simulates.mono (h : Simulates u o n s x Q) (hle : k ≤ n) : Simulates u o k s x Q := by
  unfold Simulates at h ⊢
  split
  · exact h
  · exact h
  · exact Lasts.mono h hle
  · exact h

theorem Simulates.comes (h : Simulates u o n s x Q)
    (hQ : ∀ a w s', Q a w s' → ∃ j s'', Comes u o j s' s'' ∧ Q' a w s'') :
    Simulates u o n s x Q' := by
  unfold Simulates at h ⊢
  split
  · obtain ⟨k, s', hk, ha⟩ := h
    obtain ⟨j, s'', hj, hb⟩ := hQ _ _ _ ha
    exact ⟨k + j, s'', hk.trans hj, hb⟩
  · exact h
  · exact h
  · exact h

theorem Simulates.imp (h : Simulates u o n s x Q) (hQ : ∀ a w s', Q a w s' → Q' a w s') :
    Simulates u o n s x Q' :=
  h.comes fun a w s' ha => ⟨0, s', .refl s', hQ a w s' ha⟩

theorem run_bind (f : Eval α) (g : α → Eval β) (w : World) :
    (f >>= g) w = match f w with
      | .ok a w' => g a w'
      | .error e w' => .error e w' := by
  show EStateM.bind f g w = _
  unfold EStateM.bind
  cases f w <;> rfl

theorem Simulates.bind {f : Eval α} {g : α → Eval β} {w : World} {R : β → World → State → Prop}
    (h : Simulates u o n s (f w) Q)
    (hg : ∀ a w' s', Q a w' s' → Simulates u o n s' (g a w') R) :
    Simulates u o n s ((f >>= g) w) R := by
  rw [run_bind]
  cases hf : f w with
  | ok a w' =>
    rw [hf] at h
    obtain ⟨k, s', hk, hQ⟩ := h
    exact (hk.simulates (hg a w' s' hQ)).mono (Nat.le_add_left n k)
  | error e w' =>
    rw [hf] at h
    cases e <;> exact h

theorem Simulates.pure {a : α} {w : World} (h : Q a w s) :
    Simulates u o n s ((pure a : Eval α) w) Q := ⟨0, s, .refl s, h⟩

end

/-! ### Instructions -/

/-- A frame that is about to run: the method that it runs, and the height of the operand stack
below it.  There is no step limit. -/
structure Stage (u : Setup) (m : Method) (low : List Value) (f : Frame) : Prop where
  limit : u.limit = none
  method : u.image.methods[f.method]? = some m
  base : f.base = low.length

section

variable {σ : Type} {u : Setup} {o : Observer σ} {m : Method} {low ops : List Value} {f g : Frame}
  {cs : List Frame} {k n a : Nat} {w : World} {i : Instr}

@[simp] theorem Frame.to_to (f : Frame) (a b : Nat) : (f.to a).to b = f.to b := rfl

theorem Stage.exceeded (h : Stage u m low f) (steps : Nat) : u.exceeded steps = none := by
  rw [Setup.exceeded, h.limit]
  rfl

theorem Stage.comes (h : Stage u m low f) (hi : m.code[a]? = some i) (hret : i ≠ .ret) {s' : State}
    (hstep : step u.image u.hosts m i (.of low ops (f.to (a + 1)) cs k w) = .ok () s') :
    Comes u o 1 (.of low ops (f.to a) cs k w) s' := by
  intro steps seen
  have hadv : advance u o ⟨.of low ops (f.to a) cs k w, steps, seen⟩ = _ :=
    advance_step h.method hi (h.exceeded _) hret
  rw [State.next_of, Frame.to_to, Frame.pc_to, hstep] at hadv
  refine ⟨steps + 1, o.see seen m a i, ?_⟩
  rw [go, hadv]
  rfl

theorem Stage.ends (h : Stage u m low f) (hi : m.code[a]? = some i) (hret : i ≠ .ret) {e : Fault}
    {s' : State}
    (hstep : step u.image u.hosts m i (.of low ops (f.to (a + 1)) cs k w) = .error e s') :
    Ends u o (.of low ops (f.to a) cs k w) (.error e) s'.world := by
  intro steps seen
  have hadv : advance u o ⟨.of low ops (f.to a) cs k w, steps, seen⟩ = _ :=
    advance_step h.method hi (h.exceeded _) hret
  rw [State.next_of, Frame.to_to, Frame.pc_to, hstep] at hadv
  refine ⟨1, ⟨s', steps + 1, o.see seen m a i⟩, ?_, rfl⟩
  rw [go, hadv]
  rfl

theorem Stage.comes_effect (h : Stage u m low f) (hi : m.code[a]? = some i) (hret : i ≠ .ret)
    {vs us : List Value} {w' : World}
    (he : Machine.effect u.image u.hosts w i vs = some (.ok (us, w'))) :
    Comes u o 1 (.of low (vs ++ ops) (f.to a) cs k w) (.of low (us ++ ops) (f.to (a + 1)) cs k w') :=
  h.comes hi hret (step_carries (f := f.to (a + 1)) h.base he)

theorem Stage.label (h : Stage u m low f) {l : Nat} (hi : m.code[a]? = some (.label l)) :
    Comes u o 1 (.of low ops (f.to a) cs k w) (.of low ops (f.to (a + 1)) cs k w) :=
  h.comes hi (by simp) rfl

theorem Stage.pushInt (h : Stage u m low f) {v : Int64} (hi : m.code[a]? = some (.pushInt v)) :
    Comes u o 1 (.of low ops (f.to a) cs k w) (.of low (.int v :: ops) (f.to (a + 1)) cs k w) :=
  h.comes hi (by simp) (push_of _)

theorem Stage.pop (h : Stage u m low f) (hi : m.code[a]? = some .pop) (v : Value) :
    Comes u o 1 (.of low (v :: ops) (f.to a) cs k w) (.of low ops (f.to (a + 1)) cs k w) := by
  refine h.comes hi (by simp) ?_
  rw [step, pop_bind (f := f.to (a + 1)) h.base]
  rfl

theorem Stage.jump (h : Stage u m low f) {l pos : Nat} (hi : m.code[a]? = some (.jump l))
    (hpos : m.position? l = some pos) :
    Comes u o 1 (.of low ops (f.to a) cs k w) (.of low ops (f.to pos) cs k w) :=
  h.comes hi (by simp) (jump_of hpos)

theorem Stage.branchIfTrue (h : Stage u m low f) {l pos : Nat}
    (hi : m.code[a]? = some (.branchIfTrue l)) (hpos : m.position? l = some pos) (v : Int64) :
    Comes u o 1 (.of low (.int v :: ops) (f.to a) cs k w)
      (.of low ops (f.to (if v ≠ 0 then pos else a + 1)) cs k w) := by
  refine h.comes hi (by simp) ?_
  rw [branchIfTrue_of (f := f.to (a + 1)) h.base hpos, Frame.to_to]
  congr 2
  split <;> rfl

theorem Stage.branchTruth (h : Stage u m low f) {l pos : Nat}
    (hi : m.code[a]? = some (.branchIfTrue l)) (hpos : m.position? l = some pos) (c : Bool) :
    Comes u o 1 (.of low (.ofBool c :: ops) (f.to a) cs k w)
      (.of low ops (f.to (if c then pos else a + 1)) cs k w) := by
  cases c with
  | true => exact h.branchIfTrue hi hpos 1
  | false => exact h.branchIfTrue hi hpos 0

theorem Stage.branchCmp (h : Stage u m low f) {cond : Comparison} {num : Numeric} {l pos : Nat}
    (hi : m.code[a]? = some (.branchCmp cond num l)) (hpos : m.position? l = some pos)
    {v v' : Value} {c : Bool} (hc : holds cond num v v' = .ok c) :
    Comes u o 1 (.of low (v' :: v :: ops) (f.to a) cs k w)
      (.of low ops (f.to (if c then pos else a + 1)) cs k w) := by
  refine h.comes hi (by simp) ?_
  rw [branchCmp_of (f := f.to (a + 1)) h.base hpos hc, Frame.to_to]
  congr 2
  split <;> rfl

/-! ### Code of truth values -/

/-- The code of a truth value, after the branch has been taken or not. -/
theorem Stage.truth (h : Stage u m low f) {branch : Nat → Instr} (taken c : Bool) {b : Nat}
    (hc : TruthCode m branch (if taken then 1 else 0) a b) {vs : List Value}
    (hbranch : ∀ yes pos, m.code[a]? = some (branch yes) → m.position? yes = some pos →
      Comes u o 1 (.of low (vs ++ ops) (f.to a) cs k w)
        (.of low ops (f.to (if c then pos else a + 1)) cs k w)) :
    ∃ j, Comes u o j (.of low (vs ++ ops) (f.to a) cs k w)
      (.of low (.ofBool (c == taken) :: ops) (f.to b) cs k w) := by
  obtain ⟨yes, no, stop, hcode, hyes, hstop, rfl⟩ := hc
  have hother : (1 - if taken then 1 else 0 : Int64) = if !taken then 1 else 0 := by
    cases taken <;> decide
  rw [hother] at hcode
  have hstart := hbranch yes _ (hcode 0 _ rfl) hyes
  have hend : ∀ v, Comes u o 1 (.of low (v :: ops) (f.to (a + 6)) cs k w)
      (.of low (v :: ops) (f.to (a + 7)) cs k w) := fun v => h.label (hcode 6 _ rfl)
  cases c with
  | true =>
    have hpush : Comes u o 2 (.of low ops (f.to (a + 4)) cs k w)
        (.of low (.ofBool taken :: ops) (f.to (a + 6)) cs k w) :=
      (h.label (hcode 4 _ rfl)).trans (h.pushInt (hcode 5 _ rfl))
    rw [Bool.true_beq]
    exact ⟨_, (hstart.trans hpush).trans (hend _)⟩
  | false =>
    have hpush : Comes u o 2 (.of low ops (f.to (a + 1)) cs k w)
        (.of low (.ofBool (!taken) :: ops) (f.to (a + 3)) cs k w) :=
      (h.label (hcode 1 _ rfl)).trans (h.pushInt (hcode 2 _ rfl))
    rw [Bool.false_beq]
    exact ⟨_, ((hstart.trans hpush).trans (h.jump (hcode 3 _ rfl) hstop)).trans (hend _)⟩

/-! ### Operations -/

/-- An evaluation does what the effect of an instruction says; `out` gives the operands that its
result makes. -/
def Follows (out : α → List Value) (w : World) (x : EStateM.Result Stop World α) :
    Machine.Effect → Prop
  | .ok (vs, w') => ∃ a, x = .ok a w' ∧ out a = vs
  | .error e => x = .error (.fault e) w

/-- The frame has come to a position with operands of some types on top, and the arrays are as
well typed as before. -/
structure Lands (low : List Value) (f : Frame) (cs : List Frame) (b : Nat) (ops : List Value)
    (w : World) (τ : List Ty) (vs : List Value) (w' : World) (s : State) : Prop where
  state : ∃ k, s = .of low (vs ++ ops) (f.to b) cs k w'
  leaves : Leaves w τ (vs, w')

theorem Stage.effect (h : Stage u m low f) (hh : HostsOk u.image u.hosts) (has : ArraysOk w.arrays)
    (hi : m.code[a]? = some i) {τ τ' : List Ty} (ht : Takes u.image i τ τ') {vs : List Value}
    (hvs : List.Forall₂ (HasTy w.arrays) vs τ) {x : EStateM.Result Stop World α}
    {out : α → List Value}
    (hx : ∀ r, effect u.image u.hosts w i vs = some r → Follows out w x r) :
    Simulates u o n (.of low (vs ++ ops) (f.to a) cs k w) x fun v w' s' =>
      Lands low f cs (a + 1) ops w τ' (out v) w' s' := by
  have hret : i ≠ .ret := by
    rintro rfl
    cases ht
  obtain ⟨r, hr, hsound⟩ := effect_sound has hh ht hvs
  have hstep : Carries low ops (f.to (a + 1)) cs k w
      (step u.image u.hosts m i (.of low (vs ++ ops) (f.to (a + 1)) cs k w)) r :=
    step_carries (f := f.to (a + 1)) h.base hr
  have hfollows := hx r hr
  cases r with
  | error e =>
    obtain ⟨rest, hstep⟩ := hstep
    rw [show x = _ from hfollows]
    exact h.ends hi hret hstep
  | ok res =>
    obtain ⟨us, w'⟩ := res
    obtain ⟨v, rfl, rfl⟩ := hfollows
    exact ⟨1, _, h.comes hi hret hstep, ⟨k, rfl⟩, hsound⟩

end

end Quill.Meaning
