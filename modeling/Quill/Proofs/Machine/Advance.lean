import Quill.Proofs.Machine.Effect

/-! # Steps of a run

What the instructions do that look at their frame, on states given by their parts, and what
`advance` makes of an instruction.  `go_invariant` is the induction over a run: what every step
keeps holds of every state that the run comes to, and of the way in which it ends. -/

namespace Quill.Machine

open Code

def Frame.to (f : Frame) (pc : Nat) : Frame := { f with pc }

@[simp] theorem Frame.base_to (f : Frame) (pc : Nat) : (f.to pc).base = f.base := rfl
@[simp] theorem Frame.pc_to (f : Frame) (pc : Nat) : (f.to pc).pc = pc := rfl
@[simp] theorem Frame.method_to (f : Frame) (pc : Nat) : (f.to pc).method = f.method := rfl
@[simp] theorem Frame.args_to (f : Frame) (pc : Nat) : (f.to pc).args = f.args := rfl
@[simp] theorem Frame.locals_to (f : Frame) (pc : Nat) : (f.to pc).locals = f.locals := rfl

section

variable {p : Image} {hosts : Hosts} {m : Method} {low ops : List Value} {f : Frame}
  {cs : List Frame} {n : Nat} {w : World}

/-! ### Variables and branches -/

theorem loadArg_of {k : Nat} {v : Value} (h : f.args[k]? = some v) :
    step p hosts m (.loadArg k) (.of low ops f cs n w) = .ok () (.of low (v :: ops) f cs n w) := by
  have hslot : (State.of low ops f cs n w).frame.args[k]? = some v := h
  rw [step, loadArg, hslot]
  exact push_of v

theorem loadLocal_of {k : Nat} {v : Value} (h : f.locals[k]? = some v) :
    step p hosts m (.loadLocal k) (.of low ops f cs n w) =
      .ok () (.of low (v :: ops) f cs n w) := by
  have hslot : (State.of low ops f cs n w).frame.locals[k]? = some v := h
  rw [step, loadLocal, hslot]
  exact push_of v

theorem storeArg_of (hf : f.base = low.length) {k : Nat} (h : k < f.args.size) (v : Value) :
    step p hosts m (.storeArg k) (.of low (v :: ops) f cs n w) =
      .ok () (.of low ops { f with args := f.args.setIfInBounds k v } cs n w) := by
  rw [step, pop_bind hf]
  exact if_pos h

theorem storeLocal_of (hf : f.base = low.length) {k : Nat} (h : k < f.locals.size) (v : Value) :
    step p hosts m (.storeLocal k) (.of low (v :: ops) f cs n w) =
      .ok () (.of low ops { f with locals := f.locals.setIfInBounds k v } cs n w) := by
  rw [step, pop_bind hf]
  exact if_pos h

theorem jump_of {label pos : Nat} (h : m.position? label = some pos) :
    jump m label (.of low ops f cs n w) = .ok () (.of low ops (f.to pos) cs n w) := by
  rw [jump, h]
  rfl

theorem branchIfTrue_of (hf : f.base = low.length) {label pos : Nat}
    (h : m.position? label = some pos) (v : Int64) :
    step p hosts m (.branchIfTrue label) (.of low (.int v :: ops) f cs n w) =
      .ok () (.of low ops (if v ≠ 0 then f.to pos else f) cs n w) := by
  rw [step, popInt_bind hf]
  show (if v ≠ 0 then jump m label else pure ()) (.of low ops f cs n w) = _
  by_cases hv : v ≠ 0
  · rw [if_pos hv, if_pos hv]
    exact jump_of h
  · rw [if_neg hv, if_neg hv]
    rfl

theorem branchCmp_of (hf : f.base = low.length) {cond : Comparison} {num : Numeric}
    {label pos : Nat} (h : m.position? label = some pos) {a b : Value} {holds : Bool}
    (hab : Machine.holds cond num a b = .ok holds) :
    step p hosts m (.branchCmp cond num label) (.of low (b :: a :: ops) f cs n w) =
      .ok () (.of low ops (if holds then f.to pos else f) cs n w) := by
  rw [step, pop_bind hf, pop_bind hf, hab]
  show (if holds = true then jump m label else pure ()) (.of low ops f cs n w) = _
  cases holds with
  | true => exact jump_of h
  | false => rfl

/-! ### Calls and returns -/

theorem initialLocals_arrays (ls : List Local) :
    ∀ (heap : Heap) (done : Array Value), (initialLocals heap done ls).2.arrays = heap.arrays := by
  induction ls with
  | nil => exact fun _ _ => rfl
  | cons l ls ih =>
    intro heap done
    rw [initialLocals, ih]
    cases l.ty <;> rfl

theorem newFrame_eq (c : Method) (as : Arrays) (n height id : Nat) (args : List Value) :
    newFrame c ⟨as, n⟩ height id args =
      (⟨id, args.toArray, (initialLocals ⟨as, n⟩ #[] c.locals.toList).1, 0, height⟩,
        ⟨as, (initialLocals ⟨as, n⟩ #[] c.locals.toList).2.empties⟩) := by
  have harrays := initialLocals_arrays c.locals.toList ⟨as, n⟩ #[]
  unfold newFrame
  generalize initialLocals ⟨as, n⟩ #[] c.locals.toList = r at harrays ⊢
  obtain ⟨locals, arrays, empties⟩ := r
  dsimp only at harrays ⊢
  rw [harrays]

theorem callee_eq {id : Nat} {c : Method} (hc : p.methods[id]? = some c) (hhost : c.host = none)
    {argc : Nat} (hargc : argc = c.arity) : callee p id argc = .ok c := by
  unfold callee
  rw [hc]
  dsimp only
  rw [hhost, if_neg (by decide), if_neg fun h => h hargc]

theorem callee_spec {id argc : Nat} {c : Method} (h : callee p id argc = .ok c) :
    p.methods[id]? = some c ∧ c.host = none := by
  unfold callee at h
  split at h
  · cases h
  · next m hm =>
    split at h
    · cases h
    · next hhost =>
      split at h
      · cases h
      · cases h
        exact ⟨hm, by simpa using hhost⟩

def calledFrame (c : Method) (w : World) (n height id : Nat) (args : List Value) : Frame :=
  ⟨id, args.toArray, (initialLocals ⟨w.arrays, n⟩ #[] c.locals.toList).1, 0, height⟩

/-- The number of arrays that variables have started with, after a call. -/
def calledEmpties (c : Method) (w : World) (n : Nat) : Nat :=
  (initialLocals ⟨w.arrays, n⟩ #[] c.locals.toList).2.empties

theorem call_of (hf : f.base = low.length) {id : Nat} {c : Method} (hc : p.methods[id]? = some c)
    (hhost : c.host = none) {vs : List Value} (hvs : vs.length = c.arity) :
    step p hosts m (.call id vs.length) (.of low (vs ++ ops) f cs n w) =
      .ok () (.of (low ++ ops.reverse) [] (calledFrame c w n (low ++ ops.reverse).length id
        vs.reverse) (f :: cs) (calledEmpties c w n) w) := by
  rw [step, popMany_bind hf]
  unfold enter
  rw [callee_eq hc hhost (by rw [List.length_reverse, hvs])]
  dsimp only
  unfold State.of
  dsimp only
  rw [newFrame_eq]
  simp [calledFrame, calledEmpties]

theorem leave_of (hf : f.base = low.length)
    (hops : ops.length = if m.returnsValue then 1 else 0) (g : Frame) :
    leave m (.of low ops f (g :: cs) n w) =
      .ok none ⟨(low ++ ops.reverse).toArray, g, cs, ⟨w.arrays, n⟩, w.console⟩ := by
  unfold leave State.of
  dsimp only
  have hdepth : (low ++ ops.reverse).toArray.size - f.base = ops.length := by
    rw [hf]
    simp
  rw [hdepth, if_neg fun h => h hops]

theorem leave_last (hf : f.base = low.length)
    (hops : ops.length = if m.returnsValue then 1 else 0) :
    leave m (.of low ops f [] n w) = .ok (some ops.head?) (.of low [] f [] n w) := by
  unfold leave State.of
  dsimp only
  have hdepth : (low ++ ops.reverse).toArray.size - f.base = ops.length := by
    rw [hf]
    simp
  rw [hdepth, if_neg fun h => h hops]
  cases hv : m.returnsValue with
  | true =>
    rw [hv, if_pos rfl] at hops
    obtain ⟨v, rfl⟩ := List.length_eq_one_iff.mp hops
    simp
  | false =>
    rw [hv, if_neg (by decide)] at hops
    obtain rfl := List.length_eq_zero_iff.mp hops
    simp

end

/-! ### Runs -/

section

variable {σ : Type} {u : Setup} {o : Observer σ}

/-- How a run goes on after an instruction. -/
def Progress.ofStep (steps : Nat) (seen : σ) : EStateM.Result Fault State Unit → Progress σ
  | .ok _ state => .running { state, steps, seen }
  | .error fault state => .ended (.error fault) { state, steps, seen }

/-- How a run goes on after a return. -/
def Progress.ofLeave (steps : Nat) (seen : σ) :
    EStateM.Result Fault State (Option (Option Value)) → Progress σ
  | .ok (some result) state => .ended (.ok result) { state, steps, seen }
  | .ok none state => .running { state, steps, seen }
  | .error fault state => .ended (.error fault) { state, steps, seen }

/-- The state at the next position of its frame. -/
def State.next (s : State) : State := { s with frame := s.frame.to (s.frame.pc + 1) }

@[simp] theorem State.next_of (low ops : List Value) (f : Frame) (cs : List Frame) (n : Nat)
    (w : World) : (State.of low ops f cs n w).next = .of low ops (f.to (f.pc + 1)) cs n w := rfl

section

variable {s : State} {steps : Nat} {seen : σ} {m : Method} {i : Instr}

theorem advance_step (hm : u.image.methods[s.frame.method]? = some m)
    (hi : m.code[s.frame.pc]? = some i) (hlim : u.exceeded (steps + 1) = none) (hret : i ≠ .ret) :
    advance u o ⟨s, steps, seen⟩ = .ofStep (steps + 1) (o.see seen m s.frame.pc i)
      (step u.image u.hosts m i s.next) := by
  unfold advance
  dsimp only
  rw [hm]
  dsimp only
  rw [hi]
  dsimp only
  rw [hlim]
  dsimp only
  cases i with
  | ret => exact absurd rfl hret
  | _ =>
    unfold Progress.ofStep
    rfl

theorem advance_ret (hm : u.image.methods[s.frame.method]? = some m)
    (hi : m.code[s.frame.pc]? = some .ret) (hlim : u.exceeded (steps + 1) = none) :
    advance u o ⟨s, steps, seen⟩ = .ofLeave (steps + 1) (o.see seen m s.frame.pc .ret)
      (leave m s.next) := by
  unfold advance
  dsimp only
  rw [hm]
  dsimp only
  rw [hi]
  dsimp only
  rw [hlim]
  dsimp only
  unfold Progress.ofLeave
  rfl

theorem advance_exceeded (hm : u.image.methods[s.frame.method]? = some m)
    (hi : m.code[s.frame.pc]? = some i) {limit : Nat} (hlim : u.exceeded (steps + 1) = some limit) :
    advance u o ⟨s, steps, seen⟩ =
      .ended (.error (.stepLimitExceeded limit)) ⟨s, steps + 1, seen⟩ := by
  unfold advance
  dsimp only
  rw [hm]
  dsimp only
  rw [hi]
  dsimp only
  rw [hlim]

end

/-- What holds of a run that goes on, or of one that has ended. -/
def Progress.Holds (I : Run σ → Prop) (Q : Outcome → Run σ → Prop) : Progress σ → Prop
  | .running r => I r
  | .ended outcome r => Q outcome r

/-- What every step keeps holds as long as the run goes on, and tells how it ends. -/
theorem go_invariant {I : Run σ → Prop} {Q : Outcome → Run σ → Prop}
    (h : ∀ r, I r → (advance u o r).Holds I Q) :
    ∀ (k : Nat) (r : Run σ), I r → (go u o k r).Holds I Q := by
  intro k
  induction k with
  | zero => exact fun r hr => hr
  | succ k ih =>
    intro r hr
    have hstep := h r hr
    rw [go]
    cases hadv : advance u o r with
    | ended outcome r' =>
      rw [hadv] at hstep
      exact hstep
    | running r' =>
      rw [hadv] at hstep
      exact ih r' hstep

theorem go_add (j k : Nat) (r : Run σ) :
    go u o (j + k) r = match go u o j r with
      | .ended outcome r => .ended outcome r
      | .running r => go u o k r := by
  induction j generalizing r with
  | zero => rw [Nat.zero_add, go]
  | succ j ih =>
    rw [Nat.succ_add, go, go]
    cases advance u o r with
    | ended outcome r => rfl
    | running r => exact ih r

theorem go_ended_unique {j k : Nat} {r r₁ r₂ : Run σ} {a b : Outcome}
    (h₁ : go u o j r = .ended a r₁) (h₂ : go u o k r = .ended b r₂) : a = b ∧ r₁ = r₂ := by
  have hj : go u o (j + k) r = .ended a r₁ := by rw [go_add, h₁]
  have hk : go u o (j + k) r = .ended b r₂ := by rw [Nat.add_comm, go_add, h₂]
  rw [hj] at hk
  cases hk
  exact ⟨rfl, rfl⟩

end

end Quill.Machine
