import Quill.Machine.Run

/-! # What instructions do with operands

`State.of` gives a state by its parts: the operands of the waiting frames, those of the current
frame with the top first, the frames, and the world, which is what a program shares with its
surroundings.  On such a state the actions of the machine can be computed.

`effect` is an instruction as a function of its operands and the world.  It leaves out the
instructions that look at the frame: those of variables, branches, calls and returns. -/

namespace Quill.Machine

open Code

/-- What outlives a frame: the arrays that were made, and the console. -/
structure World where
  arrays : Arrays
  console : Console

/-- A state by its parts.  The operands of the current frame stand with the top first. -/
def State.of (low ops : List Value) (f : Frame) (callers : List Frame) (empties : Nat)
    (w : World) : State :=
  ⟨(low ++ ops.reverse).toArray, f, callers, ⟨w.arrays, empties⟩, w.console⟩

def State.world (s : State) : World := ⟨s.heap.arrays, s.console⟩

section

variable {m : Method} {low ops : List Value} {f : Frame} {cs : List Frame} {n : Nat} {w : World}

@[simp] theorem State.world_of : (State.of low ops f cs n w).world = w := rfl

/-! ### Operands -/

theorem push_of (v : Value) :
    push v (.of low ops f cs n w) = .ok () (.of low (v :: ops) f cs n w) := by
  simp [push, State.of]

theorem pop_of (hf : f.base = low.length) (v : Value) :
    pop m (.of low (v :: ops) f cs n w) = .ok v (.of low ops f cs n w) := by
  simp [pop, State.of, hf]

theorem popMany_of (hf : f.base = low.length) (vs : List Value) :
    popMany m vs.length (.of low (vs ++ ops) f cs n w) =
      .ok vs.reverse (.of low ops f cs n w) := by
  have hstack : low ++ (vs ++ ops).reverse = (low ++ ops.reverse) ++ vs.reverse := by
    rw [List.reverse_append, List.append_assoc]
  have hlow : low.length ≤ (low ++ ops.reverse).length := by simp
  unfold popMany State.of
  rw [hstack]
  generalize low ++ ops.reverse = below at hlow ⊢
  dsimp only
  rw [if_neg (by simp [hf]; omega)]
  simp [List.take_of_length_le]

end

/-! ### Effects -/

/-- What an instruction makes of its operands: those it leaves, and the world after it. -/
abbrev Effect := Except Fault (List Value × World)

/-- An operation of the machine as a function of its operands, the top first. -/
def intrinsicEffect (w : World) : Intrinsic → List Value → Option Effect
  | .print, [v] => some do
    let text ← v.asStr
    match w.console.fault with
    | some fault => .error (.console fault)
    | none => return ([], { w with console := w.console.write text })
  | .printLn, [v] => some do
    let text ← v.asStr
    match w.console.fault with
    | some fault => .error (.console fault)
    | none => return ([], { w with console := w.console.writeLine text })
  | .readLn, [] => some <|
    match w.console.readLine with
    | .ok (line, console) => .ok ([.str (line.getD "")], { w with console })
    | .error message => .error (.console message)
  | .intToStr, [v] => some do return ([.str (Decimal.ofInt (← v.asInt).toInt)], w)
  | .floatToStr, [v] => some do return ([.str (floatText (← v.asFloat))], w)
  | .boolToStr, [v] => some do return ([.str (if (← v.asInt) = 0 then "false" else "true")], w)
  | .parseInt, [v] => some do return ([.int (← parseInt (← v.asStr))], w)
  | .parseFloat, [v] => some do return ([.float (← parseFloat (← v.asStr))], w)
  | .strLen, [v] => some do return ([lengthValue (← v.asStr).length], w)
  | .arrayLen, [v] => some do
    return ([lengthValue (← w.arrays.find (← v.asArray)).length], w)
  | .charAt, [i, v] => some do
    let index ← i.asInt
    return ([.str (← charAt (← v.asStr) index)], w)
  | _, _ => none

/-- The element at the indices above an array. -/
def getEffect (w : World) (is : List Value) (v : Value) : Effect := do
  let indices ← Value.asInts is.reverse
  let a ← w.arrays.find (← v.asArray)
  return ([← a.get indices], w)

/-- The assignment to the element at the indices above an array. -/
def setEffect (w : World) (v : Value) (is : List Value) (u : Value) : Effect := do
  let indices ← Value.asInts is.reverse
  let ref ← u.asArray
  let i ← (w.arrays.find ref).bind (·.place indices)
  return ([], { w with arrays := w.arrays.replace ref i v })

/-- The new array of some dimensions. -/
def newEffect (w : World) (e : Element) (dims : List Value) : Effect := do
  let a ← ArrayValue.new e (← Value.asInts dims.reverse)
  return ([.array (.made w.arrays.size)], { w with arrays := w.arrays.push a })

/-- The call of a host routine with its arguments in order, if it leaves a value exactly where it
is declared to. -/
def hostEffect (hosts : Hosts) (w : World) (r : HostRoutine) (args : List Value) :
    Option Effect :=
  match hosts.find? r with
  | none => some (.error (.unknownHostRoutine r.qualifiedName))
  | some action =>
    match action args w.arrays with
    | .error e => some (.error e)
    | .ok (result, arrays) =>
      if result.isSome = r.returnType.isValue then some (.ok (result.toList, { w with arrays }))
      else none

/-- An instruction as a function of its operands, the top first; `none` if it does not take just
so many operands or looks at more than operands and the world. -/
def effect (p : Image) (hosts : Hosts) (w : World) : Instr → List Value → Option Effect
  | .nop, [] | .label _, [] => some (.ok ([], w))
  | .pushInt v, [] => some (.ok ([.int v], w))
  | .pushFloat bits, [] => some (.ok ([.float (Float.ofBits bits)], w))
  | .pushStr id, [] => p.strings[id]?.map fun s => .ok ([.str s], w)
  | .arith op ty, [b, a] => some do return ([← arith op ty a b], w)
  | .intToFloat, [v] => some do return ([.float (← v.asInt).toFloat], w)
  | .concat, [b, a] => some do return ([.str ((← a.asStr) ++ (← b.asStr))], w)
  | .strEq, [b, a] => some do return ([.ofBool ((← a.asStr) == (← b.asStr))], w)
  | .newArray e rank, dims => if dims.length = rank then some (newEffect w e dims) else none
  | .loadElem, [i, v] => some (getEffect w [i] v)
  | .storeElem, [v, i, u] => some (setEffect w v [i] u)
  | .arrayGet rank, vs =>
    match vs.drop rank with
    | [v] => some (getEffect w (vs.take rank) v)
    | _ => none
  | .arraySet rank, v :: vs =>
    match vs.drop rank with
    | [u] => some (setEffect w v (vs.take rank) u)
    | _ => none
  | .callHost routine, vs =>
    match p.hostRoutines[routine]? with
    | some r => if vs.length = r.arity then hostEffect hosts w r vs.reverse else none
    | none => none
  | .intrinsic i, vs => intrinsicEffect w i vs
  | .pop, [_] => some (.ok ([], w))
  | _, _ => none

/-! ### Effects and steps -/

section

variable {p : Image} {hosts : Hosts} {m : Method} {low ops : List Value} {f : Frame}
  {cs : List Frame} {n : Nat} {w : World}

/-- An action of the machine does what an effect says. -/
def Carries (low ops : List Value) (f : Frame) (cs : List Frame) (n : Nat) (w : World)
    (res : EStateM.Result Fault State Unit) : Effect → Prop
  | .ok (vs, w') => res = .ok () (.of low (vs ++ ops) f cs n w')
  | .error e => ∃ rest, res = .error e (.of low rest f cs n w)

theorem bind_run (x : Action α) (g : α → Action β) (s : State) :
    (x >>= g) s = match x s with
      | .ok a s' => g a s'
      | .error e s' => .error e s' := by
  show EStateM.bind x g s = _
  unfold EStateM.bind
  cases x s <;> rfl

theorem pop_bind (hf : f.base = low.length) (v : Value) (g : Value → Action α) :
    (pop m >>= g) (.of low (v :: ops) f cs n w) = g v (.of low ops f cs n w) := by
  rw [bind_run, pop_of hf]

theorem popMany_bind (hf : f.base = low.length) (vs : List Value) (g : List Value → Action α) :
    (popMany m vs.length >>= g) (.of low (vs ++ ops) f cs n w) =
      g vs.reverse (.of low ops f cs n w) := by
  rw [bind_run, popMany_of hf]

theorem popInt_bind (hf : f.base = low.length) (v : Value) (g : Int64 → Action α) :
    (popInt m >>= g) (.of low (v :: ops) f cs n w) =
      (ofExcept v.asInt >>= g) (.of low ops f cs n w) := by
  rw [popInt, bind_assoc, pop_bind hf]

theorem popStr_bind (hf : f.base = low.length) (v : Value) (g : String → Action α) :
    (popStr m >>= g) (.of low (v :: ops) f cs n w) =
      (ofExcept v.asStr >>= g) (.of low ops f cs n w) := by
  rw [popStr, bind_assoc, pop_bind hf]

theorem popInts_bind (hf : f.base = low.length) (vs : List Value) (g : List Int64 → Action α) :
    (popInts m vs.length >>= g) (.of low (vs ++ ops) f cs n w) =
      (ofExcept (Value.asInts vs.reverse) >>= g) (.of low ops f cs n w) := by
  rw [popInts, bind_assoc, popMany_bind hf]

theorem arrayOf_of (v : Value) :
    arrayOf v (.of low ops f cs n w) =
      ofExcept (v.asArray >>= w.arrays.find) (.of low ops f cs n w) := by
  cases v with
  | array ref =>
    unfold arrayOf
    dsimp only [bind, EStateM.bind, Except.bind, ofExcept, Value.asArray, State.of]
    cases w.arrays.find ref <;> rfl
  | int _ | float _ | str _ => rfl

theorem arrayOf_bind (v : Value) (g : ArrayValue → Action α) :
    (arrayOf v >>= g) (.of low ops f cs n w) =
      (ofExcept (v.asArray >>= w.arrays.find) >>= g) (.of low ops f cs n w) := by
  rw [bind_run, bind_run, arrayOf_of]

theorem Carries.bind {rest : List Value} {r : Except Fault α} {g : α → Action Unit}
    {k : α → Effect}
    (h : ∀ a, Carries low ops f cs n w (g a (.of low rest f cs n w)) (k a)) :
    Carries low ops f cs n w ((ofExcept r >>= g) (.of low rest f cs n w)) (r >>= k) := by
  cases r with
  | error e => exact ⟨rest, rfl⟩
  | ok a => exact h a

theorem Carries.push (v : Value) :
    Carries low ops f cs n w (push v (.of low ops f cs n w)) (pure ([v], w)) := push_of v

theorem Carries.onConsole (g : Console → Console) :
    Carries low ops f cs n w (onConsole g (.of low ops f cs n w))
      (match w.console.fault with
        | some fault => .error (.console fault)
        | none => pure ([], { w with console := g w.console })) := by
  unfold Machine.onConsole State.of
  dsimp only
  cases w.console.fault with
  | some fault => exact ⟨ops, rfl⟩
  | none => rfl

theorem intrinsic_carries (hf : f.base = low.length) {i : Intrinsic} {vs : List Value}
    {r : Effect} (h : intrinsicEffect w i vs = some r) :
    Carries low ops f cs n w (intrinsic m i (.of low (vs ++ ops) f cs n w)) r := by
  unfold intrinsicEffect at h
  split at h <;> cases h <;> rw [intrinsic]
  case h_1 | h_2 =>
    rw [List.singleton_append, popStr_bind hf]
    exact .bind fun _ => .onConsole _
  case h_3 =>
    rw [bind_run]
    unfold readLine State.of
    dsimp only
    cases w.console.readLine with
    | error message => exact ⟨ops, rfl⟩
    | ok r => exact push_of (w := ⟨w.arrays, r.2⟩) _
  case h_4 | h_6 =>
    rw [List.singleton_append, popInt_bind hf]
    exact .bind fun _ => .push _
  case h_5 =>
    rw [List.singleton_append, pop_bind hf]
    exact .bind fun _ => .push _
  case h_7 | h_8 =>
    rw [List.singleton_append, popStr_bind hf]
    exact .bind fun _ => .bind fun _ => .push _
  case h_9 =>
    rw [List.singleton_append, popStr_bind hf]
    exact .bind fun _ => .push _
  case h_10 v =>
    rw [List.singleton_append, pop_bind hf, arrayOf_bind, ← bind_assoc]
    exact .bind fun _ => .push _
  case h_11 i v =>
    rw [List.cons_append, List.singleton_append, popInt_bind hf]
    refine .bind fun index => ?_
    rw [popStr_bind hf]
    exact .bind fun _ => .bind fun _ => .push _

theorem take_append_of_drop {vs : List Value} {rank : Nat} {v : Value}
    (hv : vs.drop rank = [v]) (ops : List Value) :
    (vs.take rank).length = rank ∧ vs.take rank ++ v :: ops = vs ++ ops := by
  have hlen := congrArg List.length hv
  rw [List.length_drop, List.length_singleton] at hlen
  refine ⟨by rw [List.length_take]; omega, ?_⟩
  rw [← List.singleton_append, ← hv, ← List.append_assoc, List.take_append_drop]

theorem arrayGet_carries (hf : f.base = low.length) (is : List Value) (v : Value) :
    Carries low ops f cs n w (arrayGet m is.length (.of low (is ++ v :: ops) f cs n w))
      (getEffect w is v) := by
  rw [arrayGet, getEffect, popInts_bind hf]
  refine .bind fun indices => ?_
  rw [pop_bind hf, arrayOf_bind, ← bind_assoc v.asArray]
  exact .bind fun a => .bind fun _ => .push _

theorem arraySet_carries (hf : f.base = low.length) (v : Value) (is : List Value) (u : Value) :
    Carries low ops f cs n w (arraySet m is.length (.of low (v :: (is ++ u :: ops)) f cs n w))
      (setEffect w v is u) := by
  rw [arraySet, setEffect, pop_bind hf, popInts_bind hf]
  refine .bind fun indices => ?_
  rw [pop_bind hf]
  refine .bind fun ref => ?_
  unfold State.of
  dsimp only
  cases (w.arrays.find ref).bind (·.place indices) with
  | error e => exact ⟨ops, rfl⟩
  | ok i => rfl

theorem newArray_carries (hf : f.base = low.length) (e : Element) (dims : List Value) :
    Carries low ops f cs n w (newArray m e dims.length (.of low (dims ++ ops) f cs n w))
      (newEffect w e dims) := by
  rw [newArray, newEffect, popInts_bind hf]
  refine .bind fun sizes => .bind fun a => ?_
  exact push_of (w := { w with arrays := w.arrays.push a }) _

theorem callHost_carries (hf : f.base = low.length) {routine : Nat} {r : HostRoutine}
    (hr : p.hostRoutines[routine]? = some r) {vs : List Value} (hlen : vs.length = r.arity)
    {e : Effect} (h : hostEffect hosts w r vs.reverse = some e) :
    Carries low ops f cs n w (callHost p hosts m routine (.of low (vs ++ ops) f cs n w)) e := by
  unfold hostEffect at h
  rw [callHost, hr]
  show Carries low ops f cs n w ((popMany m r.arity >>= _) _) e
  rw [← hlen, popMany_bind hf]
  cases hfind : hosts.find? r with
  | none =>
    rw [hfind] at h
    cases h
    exact ⟨ops, rfl⟩
  | some action =>
    rw [hfind] at h
    dsimp only at h
    show Carries low ops f cs n w ((onArrays (action vs.reverse) >>= _) _) e
    rw [bind_run]
    unfold onArrays State.of
    dsimp only
    cases hact : action vs.reverse w.arrays with
    | error e =>
      rw [hact] at h
      cases h
      exact ⟨ops, rfl⟩
    | ok res =>
      obtain ⟨result, arrays⟩ := res
      rw [hact] at h
      dsimp only at h ⊢
      split at h
      · next hsome =>
        cases h
        unfold hostResult
        rw [← hsome]
        cases result with
        | none => rfl
        | some v => exact push_of (w := { w with arrays }) v
      · cases h

/-- An instruction of the machine does to a state what its effect says. -/
theorem step_carries (hf : f.base = low.length) {i : Instr} {vs : List Value} {r : Effect}
    (h : effect p hosts w i vs = some r) :
    Carries low ops f cs n w (step p hosts m i (.of low (vs ++ ops) f cs n w)) r := by
  unfold effect at h
  split at h
  case h_1 | h_2 =>
    cases h
    rfl
  case h_3 | h_4 =>
    cases h
    exact push_of _
  case h_5 id =>
    cases hs : p.strings[id]? with
    | none => rw [hs] at h; cases h
    | some s =>
      rw [hs] at h
      cases h
      rw [step, hs]
      exact push_of _
  case h_6 =>
    cases h
    rw [step, List.cons_append, List.singleton_append, pop_bind hf, pop_bind hf]
    exact .bind fun _ => .push _
  case h_7 =>
    cases h
    rw [step, List.singleton_append, popInt_bind hf]
    exact .bind fun _ => .push _
  case h_8 | h_9 =>
    cases h
    rw [step, List.cons_append, List.singleton_append, pop_bind hf, pop_bind hf]
    exact .bind fun _ => .bind fun _ => .push _
  case h_10 =>
    split at h
    · next hlen =>
      cases h
      rw [step, ← hlen]
      exact newArray_carries hf _ _
    · cases h
  case h_11 =>
    cases h
    exact arrayGet_carries hf [_] _
  case h_12 =>
    cases h
    exact arraySet_carries hf _ [_] _
  case h_13 _ rank =>
    split at h
    · next v hv =>
      cases h
      obtain ⟨hlen, happ⟩ := take_append_of_drop hv ops
      have hget : Carries low ops f cs n w (arrayGet m (vs.take rank).length
          (.of low (vs.take rank ++ v :: ops) f cs n w)) (getEffect w (vs.take rank) v) :=
        arrayGet_carries hf _ v
      rwa [hlen, happ] at hget
    · cases h
  case h_14 rank v vs =>
    split at h
    · next u hu =>
      cases h
      obtain ⟨hlen, happ⟩ := take_append_of_drop hu ops
      have hset : Carries low ops f cs n w (arraySet m (vs.take rank).length
          (.of low (v :: (vs.take rank ++ u :: ops)) f cs n w)) (setEffect w v (vs.take rank) u) :=
        arraySet_carries hf v _ u
      rwa [hlen, happ] at hset
    · cases h
  case h_15 routine vs =>
    split at h
    · next r hr =>
      split at h
      · next hlen => exact callHost_carries hf hr hlen h
      · cases h
    · cases h
  case h_16 => exact intrinsic_carries hf h
  case h_17 =>
    cases h
    rw [step, List.singleton_append, pop_bind hf]
    rfl
  case h_18 => cases h

end

end Quill.Machine
