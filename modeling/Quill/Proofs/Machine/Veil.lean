import Quill.Machine.Run

/-! # What instructions do not look at

A veil hides the method and the local variables of the current frame and the frames that wait for
it, and, if wanted, the position in the code.  Most instructions look at none of these and leave
them alone: they commute with drawing a veil (`step_passes`).  The exceptions are the instructions
of local variables, calls and returns, and, as far as the position goes, branches. -/

namespace Quill.Machine

open Code

/-- What is put in the place of the parts of a state that are hidden. -/
structure Veil where
  method : Nat
  pc : Option Nat
  locals : Array Value
  callers : List Frame

/-- The state with its hidden parts replaced. -/
def State.veil (s : State) (v : Veil) : State :=
  { s with
    frame := { s.frame with method := v.method, pc := v.pc.getD s.frame.pc, locals := v.locals }
    callers := v.callers }

/-- A result with the hidden parts of its state replaced. -/
def veilResult (v : Veil) : EStateM.Result Fault State α → EStateM.Result Fault State α
  | .ok a s => .ok a (s.veil v)
  | .error e s => .error e (s.veil v)

/-- An action does the same behind a veil. -/
def Passes (v : Veil) (x : Action α) : Prop := ∀ s, x (s.veil v) = veilResult v (x s)

/-- The veil that a state looks the same behind. -/
def State.own (s : State) : Veil := ⟨s.frame.method, some s.frame.pc, s.frame.locals, s.callers⟩

theorem State.veil_own (s : State) : s.veil s.own = s := rfl

section

variable {v : Veil} {m : Method}

/-! ### Actions -/

theorem Passes.pure (a : α) : Passes v (pure a : Action α) := fun _ => rfl

theorem Passes.throw (e : Fault) : Passes v (throw e : Action α) := fun _ => rfl

theorem Passes.bind {x : Action α} {g : α → Action β} (hx : Passes v x)
    (hg : ∀ a, Passes v (g a)) : Passes v (x >>= g) := by
  intro s
  show EStateM.bind x g (s.veil v) = veilResult v (EStateM.bind x g s)
  unfold EStateM.bind
  rw [hx s]
  cases x s with
  | ok a s' => exact hg a s'
  | error e s' => rfl

theorem Passes.ofExcept (r : Except Fault α) : Passes v (ofExcept r) := by
  intro s
  cases r <;> rfl

theorem Passes.ofOption (r : Option α) (e : Fault) : Passes v (ofOption r e) := by
  intro s
  cases r <;> rfl

theorem Passes.push (a : Value) : Passes v (push a) := fun _ => rfl

theorem Passes.pop : Passes v (pop m) := by
  intro s
  unfold Machine.pop
  show (if s.stack.size ≤ s.frame.base then _ else _) = _
  split
  · rfl
  · rw [show (s.veil v).stack = s.stack from rfl]
    cases s.stack.back? <;> rfl

theorem Passes.popMany (count : Nat) : Passes v (popMany m count) := by
  intro s
  unfold Machine.popMany
  show (if s.stack.size < s.frame.base + count then _ else _) = _
  split <;> rfl

theorem Passes.popInt : Passes v (popInt m) := Passes.pop.bind fun _ => .ofExcept _

theorem Passes.popStr : Passes v (popStr m) := Passes.pop.bind fun _ => .ofExcept _

theorem Passes.popInts (count : Nat) : Passes v (popInts m count) :=
  (Passes.popMany count).bind fun _ => .ofExcept _

theorem Passes.arrayOf (a : Value) : Passes v (arrayOf a) := by
  refine (Passes.ofExcept _).bind fun ref s => ?_
  rw [show (s.veil v).heap = s.heap from rfl]
  cases s.heap.arrays.find ref <;> rfl

theorem Passes.onConsole (g : Console → Console) : Passes v (onConsole g) := by
  intro s
  unfold Machine.onConsole
  rw [show (s.veil v).console = s.console from rfl]
  cases s.console.fault <;> rfl

theorem Passes.readLine : Passes v readLine := by
  intro s
  unfold Machine.readLine
  rw [show (s.veil v).console = s.console from rfl]
  cases s.console.readLine <;> rfl

theorem Passes.onArrays (g : Arrays → Except Fault (α × Arrays)) : Passes v (onArrays g) := by
  intro s
  unfold Machine.onArrays
  rw [show (s.veil v).heap = s.heap from rfl]
  cases g s.heap.arrays <;> rfl

theorem Passes.hostResult (r : HostRoutine) (result : Option Value) :
    Passes v (hostResult r result) := by
  unfold Machine.hostResult
  split
  · exact .push _
  · exact .pure _
  · exact .throw _
  · exact .throw _

theorem Passes.loadArg (slot : Nat) : Passes v (loadArg slot) := by
  intro s
  unfold Machine.loadArg
  rw [show (s.veil v).frame.args = s.frame.args from rfl]
  cases s.frame.args[slot]? <;> rfl

theorem Passes.storeArg (slot : Nat) (a : Value) : Passes v (storeArg slot a) := by
  intro s
  unfold Machine.storeArg
  show (if slot < s.frame.args.size then _ else _) = _
  split <;> rfl

theorem Passes.jump (hv : v.pc = none) (label : Nat) : Passes v (jump m label) := by
  obtain ⟨method, pc, locals, callers⟩ := v
  obtain rfl : pc = none := hv
  exact (Passes.ofOption _ _).bind fun _ _ => rfl

/-! ### Instructions -/

theorem Passes.intrinsic (i : Intrinsic) : Passes v (intrinsic m i) := by
  cases i with
  | print | printLn => exact Passes.popStr.bind fun _ => .onConsole _
  | readLn => exact Passes.readLine.bind fun _ => .push _
  | intToStr | boolToStr => exact Passes.popInt.bind fun _ => .push _
  | floatToStr => exact Passes.pop.bind fun _ => (Passes.ofExcept _).bind fun _ => .push _
  | parseInt | parseFloat =>
    exact Passes.popStr.bind fun _ => (Passes.ofExcept _).bind fun _ => .push _
  | strLen => exact Passes.popStr.bind fun _ => .push _
  | arrayLen => exact Passes.pop.bind fun _ => (Passes.arrayOf _).bind fun _ => .push _
  | charAt =>
    exact Passes.popInt.bind fun _ => Passes.popStr.bind fun _ =>
      (Passes.ofExcept _).bind fun _ => .push _

theorem Passes.arrayGet (rank : Nat) : Passes v (arrayGet m rank) :=
  (Passes.popInts rank).bind fun _ => Passes.pop.bind fun _ => (Passes.arrayOf _).bind fun _ =>
    (Passes.ofExcept _).bind fun _ => .push _

theorem Passes.arraySet (rank : Nat) : Passes v (arraySet m rank) := by
  refine Passes.pop.bind fun a => (Passes.popInts rank).bind fun indices => Passes.pop.bind
    fun _ => (Passes.ofExcept _).bind fun ref s => ?_
  rw [show (s.veil v).heap = s.heap from rfl]
  cases (s.heap.arrays.find ref).bind (·.place indices) <;> rfl

theorem Passes.newArray (e : Element) (rank : Nat) : Passes v (newArray m e rank) :=
  (Passes.popInts rank).bind fun _ => (Passes.ofExcept _).bind fun _ _ => rfl

theorem Passes.callHost (p : Image) (hosts : Hosts) (routine : Nat) :
    Passes v (callHost p hosts m routine) :=
  (Passes.ofOption _ _).bind fun _ => (Passes.popMany _).bind fun _ =>
    (Passes.ofOption _ _).bind fun _ => (Passes.onArrays _).bind fun _ => .hostResult _ _

end

/-- The instruction looks at the local variables or at other frames. -/
def looksBehind : Instr → Bool
  | .loadLocal _ | .storeLocal _ | .call _ _ => true
  | _ => false

/-- The instruction can go on elsewhere. -/
def branches : Instr → Bool
  | .branchCmp _ _ _ | .branchIfTrue _ | .jump _ => true
  | _ => false

theorem step_passes (p : Image) (hosts : Hosts) (m : Method) {i : Instr} {v : Veil}
    (hi : looksBehind i = false) (hv : branches i = true → v.pc = none) :
    Passes v (step p hosts m i) := by
  cases i with
  | nop | label _ => exact .pure _
  | pushInt _ | pushFloat _ => exact .push _
  | pushStr _ => exact (Passes.ofOption _ _).bind fun _ => .push _
  | loadArg _ => exact .loadArg _
  | storeArg _ => exact Passes.pop.bind fun _ => .storeArg _ _
  | arith _ _ =>
    exact Passes.pop.bind fun _ => Passes.pop.bind fun _ => (Passes.ofExcept _).bind fun _ =>
      .push _
  | intToFloat => exact Passes.popInt.bind fun _ => .push _
  | concat | strEq =>
    exact Passes.pop.bind fun _ => Passes.pop.bind fun _ => (Passes.ofExcept _).bind fun _ =>
      (Passes.ofExcept _).bind fun _ => .push _
  | branchCmp _ _ _ =>
    refine Passes.pop.bind fun _ => Passes.pop.bind fun _ => (Passes.ofExcept _).bind fun holds => ?_
    split
    · exact .jump (hv rfl) _
    · exact .pure _
  | branchIfTrue _ =>
    refine Passes.popInt.bind fun _ => ?_
    split
    · exact .jump (hv rfl) _
    · exact .pure _
  | jump _ => exact .jump (hv rfl) _
  | newArray _ _ => exact .newArray _ _
  | loadElem => exact .arrayGet 1
  | storeElem => exact .arraySet 1
  | arrayGet _ => exact .arrayGet _
  | arraySet _ => exact .arraySet _
  | callHost _ => exact .callHost _ _ _
  | intrinsic _ => exact .intrinsic _
  | pop => exact Passes.pop.bind fun _ => .pure _
  | ret => exact .throw _
  | loadLocal _ | storeLocal _ | call _ _ => cases hi

/-! ### What stays -/

/-- An action that does the same behind every veil leaves what can be hidden alone. -/
theorem own_of_passes {x : Action α} (hx : ∀ v, Passes v x) {s s' : State} {a : α}
    (h : x s = .ok a s') : s'.frame.method = s.frame.method ∧
      s'.frame.locals = s.frame.locals ∧ s'.callers = s.callers ∧ s'.frame.pc = s.frame.pc := by
  have hveil := hx s.own s
  rw [State.veil_own, h] at hveil
  have heq : s' = s'.veil s.own := (EStateM.Result.ok.inj hveil).2
  rw [heq]
  exact ⟨rfl, rfl, rfl, rfl⟩

/-- What an instruction does not look at, it leaves alone. -/
theorem step_keeps {p : Image} {hosts : Hosts} {m : Method} {i : Instr} {s s' : State}
    (hi : looksBehind i = false) (h : step p hosts m i s = .ok () s') :
    s'.frame.method = s.frame.method ∧ s'.frame.locals = s.frame.locals ∧
      s'.callers = s.callers ∧ (branches i = false → s'.frame.pc = s.frame.pc) := by
  cases hb : branches i with
  | false =>
    have hpass : ∀ v, Passes v (step p hosts m i) := fun v => step_passes p hosts m hi (by simp [hb])
    obtain ⟨hmethod, hlocals, hcallers, hpc⟩ := own_of_passes hpass h
    exact ⟨hmethod, hlocals, hcallers, fun _ => hpc⟩
  | true =>
    have hveil := step_passes p hosts m (v := { s.own with pc := none }) hi (fun _ => rfl) s
    rw [show s.veil { s.own with pc := none } = s from rfl, h] at hveil
    have heq : s' = s'.veil { s.own with pc := none } := (EStateM.Result.ok.inj hveil).2
    rw [heq]
    exact ⟨rfl, rfl, rfl, fun h => nomatch h⟩

theorem jump_pc {m : Method} {label : Nat} {s s' : State} (h : jump m label s = .ok () s') :
    m.position? label = some s'.frame.pc := by
  unfold jump at h
  cases hp : m.position? label with
  | none =>
    rw [hp] at h
    cases h
  | some pos =>
    rw [hp] at h
    cases h
    rfl

/-- A branch goes on at the next position or at that of its label. -/
theorem branch_pc {x : Action α} (hx : ∀ v, Passes v x) {c : α → Prop} [∀ a, Decidable (c a)]
    {m : Method} {label : Nat} {s s' : State}
    (h : (do if c (← x) then jump m label : Action Unit) s = .ok () s') :
    s'.frame.pc = s.frame.pc ∨ m.position? label = some s'.frame.pc := by
  change EStateM.bind x _ s = _ at h
  unfold EStateM.bind at h
  split at h
  · next a s₁ hxs =>
    rw [← (own_of_passes hx hxs).2.2.2]
    dsimp only at h
    by_cases ha : c a
    · rw [if_pos ha] at h
      exact .inr (jump_pc h)
    · rw [if_neg ha] at h
      cases h
      exact .inl rfl
  · cases h

theorem branchCmp_pc {p : Image} {hosts : Hosts} {m : Method} {cond : Comparison} {ty : Numeric}
    {label : Nat} {s s' : State} (h : step p hosts m (.branchCmp cond ty label) s = .ok () s') :
    s'.frame.pc = s.frame.pc ∨ m.position? label = some s'.frame.pc := by
  have heq : step p hosts m (.branchCmp cond ty label) =
      (pop m >>= fun rhs => pop m >>= fun lhs => ofExcept (holds cond ty lhs rhs)) >>= fun b =>
        if b = true then jump m label else pure () := by
    rw [step, bind_assoc]
    congr 1
    funext rhs
    rw [bind_assoc]
  rw [heq] at h
  refine branch_pc (fun _ => ?_) h
  exact Passes.pop.bind fun _ => Passes.pop.bind fun _ => .ofExcept _

end Quill.Machine
