import Quill.Decimal.Read
import Quill.Machine.State
import Quill.Text.Blank

/-! # Instructions at work

`step` says what each instruction does to the state of the machine.  A return is not among them:
it ends its frame (`leave`).  Integers wrap around at 64 bits, and their division truncates. -/

namespace Quill.Machine

open Code

/-! ### Arithmetic and comparison -/

def arithInt (op : ArithOp) (a b : Int64) : Except Fault Int64 :=
  match op with
  | .add => .ok (a + b)
  | .sub => .ok (a - b)
  | .mul => .ok (a * b)
  | .div => if b = 0 then .error .divisionByZero else .ok (a / b)

/-- Arithmetic on floating-point numbers. -/
def arithFloat (op : ArithOp) (a b : Float) : Float :=
  match op with
  | .add => a + b
  | .sub => a - b
  | .mul => a * b
  | .div => a / b

/-- Arithmetic on values of a number type; the left operand is looked at first. -/
def arith (op : ArithOp) (ty : Numeric) (lhs rhs : Value) : Except Fault Value :=
  match ty with
  | .integer => do
    let a ← lhs.asInt
    let b ← rhs.asInt
    return .int (← arithInt op a b)
  | .float => do
    let a ← lhs.asFloat
    let b ← rhs.asFloat
    return .float (arithFloat op a b)

def holdsInt (cond : Comparison) (a b : Int64) : Bool :=
  match cond with
  | .lt => a < b
  | .gt => b < a
  | .le => a ≤ b
  | .ge => b ≤ a
  | .eq => a == b
  | .ne => a != b

/-- A comparison of floating-point numbers; with a NaN only `ne` holds. -/
def holdsFloat (cond : Comparison) (a b : Float) : Bool :=
  match cond with
  | .lt => a < b
  | .gt => b < a
  | .le => a ≤ b
  | .ge => b ≤ a
  | .eq => a == b
  | .ne => a != b

/-- A comparison of values of a number type. -/
def holds (cond : Comparison) (ty : Numeric) (lhs rhs : Value) : Except Fault Bool :=
  match ty with
  | .integer => do
    let a ← lhs.asInt
    let b ← rhs.asInt
    return holdsInt cond a b
  | .float => do
    let a ← lhs.asFloat
    let b ← rhs.asFloat
    return holdsFloat cond a b

/-! ### Texts -/

/-- The integer that a text spells, with blanks around it. -/
def parseInt (s : String) : Except Fault Int64 :=
  match Decimal.toInt64? (Text.trim s.toList) with
  | some n => .ok n
  | none => .error (.malformedNumber s "integer")

/-- The floating-point number that a text spells, with blanks around it. -/
def parseFloat (s : String) : Except Fault Float :=
  match Decimal.toBits? (Text.trim s.toList) with
  | some bits => .ok (Float.ofBits bits)
  | none => .error (.malformedNumber s "float")

/-- The character of a text at an index, as a text. -/
def charAt (s : String) (index : Int64) : Except Fault String :=
  let cs := s.toList
  match if index < 0 then none else cs[index.toInt.toNat]? with
  | some c => .ok (String.singleton c)
  | none => .error (.indexOutOfBounds index cs.length)

/-- A length as an integer of the machine. -/
def lengthValue (n : Nat) : Value :=
  .int (if n < Int64.maxValue.toNatClampNeg then Int64.ofNat n else Int64.maxValue)

/-! ### Arrays -/

/-- The array that a value refers to. -/
def arrayOf (v : Value) : Action ArrayValue := do
  let ref ← ofExcept v.asArray
  fun s =>
    match s.heap.arrays.find ref with
    | .ok a => .ok a s
    | .error e => .error e s

/-- The element with so many indices on the stack, above the array. -/
def arrayGet (m : Method) (rank : Nat) : Action Unit := do
  let indices ← popInts m rank
  let a ← arrayOf (← pop m)
  push (← ofExcept (a.get indices))

/-- The assignment of the top operand to the element with so many indices below it, above the
array.  The state is taken apart before the array is changed in place. -/
def arraySet (m : Method) (rank : Nat) : Action Unit := do
  let v ← pop m
  let indices ← popInts m rank
  let ref ← ofExcept (← pop m).asArray
  fun s =>
    match (s.heap.arrays.find ref).bind (·.place indices) with
    | .error e => .error e s
    | .ok i =>
      let ⟨stack, frame, callers, ⟨arrays, empties⟩, console⟩ := s
      .ok () ⟨stack, frame, callers, ⟨arrays.replace ref i v, empties⟩, console⟩

/-- A new array with so many dimensions on the stack. -/
def newArray (m : Method) (element : Element) (rank : Nat) : Action Unit := do
  let dims ← popInts m rank
  let a ← ofExcept (ArrayValue.new element dims)
  fun s =>
    let (v, heap) := s.heap.alloc a
    push v { s with heap }

/-! ### Calls and operations -/

/-- The result of a host routine, which must leave a value exactly if it is declared to. -/
def hostResult (r : HostRoutine) (result : Option Value) : Action Unit :=
  match result, r.returnType.isValue with
  | some v, true => push v
  | none, false => pure ()
  | some _, false =>
    throw (.hostFailure r.qualifiedName "returned a value from a Void routine")
  | none, true =>
    throw (.hostFailure r.qualifiedName s!"returned nothing, expected {r.returnType.name}")

/-- What a routine does to the arrays. -/
def onArrays (f : Arrays → Except Fault (α × Arrays)) : Action α := fun s =>
  match f s.heap.arrays with
  | .ok (a, arrays) => .ok a { s with heap := { s.heap with arrays } }
  | .error e => .error e s

def callHost (p : Image) (hosts : Hosts) (m : Method) (routine : Nat) : Action Unit := do
  let r ← ofOption p.hostRoutines[routine]? (.invalidProgram (.noHostRoutine routine))
  let args ← popMany m r.arity
  let action ← ofOption (hosts.find? r) (.unknownHostRoutine r.qualifiedName)
  hostResult r (← onArrays (action args))

/-- The next line of the console, empty at the end of the input. -/
def readLine : Action String := fun s =>
  match s.console.readLine with
  | .ok (line, console) => .ok (line.getD "") { s with console }
  | .error message => .error (.console message) s

def intrinsic (m : Method) : Intrinsic → Action Unit
  | .print => do
    let text ← popStr m
    onConsole (·.write text)
  | .printLn => do
    let text ← popStr m
    onConsole (·.writeLine text)
  | .readLn => do push (.str (← readLine))
  | .intToStr => do push (.str (Decimal.ofInt (← popInt m).toInt))
  | .floatToStr => do
    let x ← ofExcept (← pop m).asFloat
    push (.str (floatText x))
  | .boolToStr => do push (.str (if (← popInt m) = 0 then "false" else "true"))
  | .parseInt => do push (.int (← ofExcept (Machine.parseInt (← popStr m))))
  | .parseFloat => do push (.float (← ofExcept (Machine.parseFloat (← popStr m))))
  | .strLen => do push (lengthValue (← popStr m).length)
  | .arrayLen => do
    let a ← arrayOf (← pop m)
    push (lengthValue a.length)
  | .charAt => do
    let index ← popInt m
    let text ← popStr m
    push (.str (← ofExcept (Machine.charAt text index)))

/-! ### Variables -/

def loadArg (slot : Nat) : Action Unit := fun s =>
  match s.frame.args[slot]? with
  | some v => push v s
  | none => .error (.invalidProgram (.noArgumentSlot slot)) s

def loadLocal (slot : Nat) : Action Unit := fun s =>
  match s.frame.locals[slot]? with
  | some v => push v s
  | none => .error (.invalidProgram (.noLocalSlot slot)) s

def storeArg (slot : Nat) (v : Value) : Action Unit := fun s =>
  if slot < s.frame.args.size then
    .ok () { s with frame := { s.frame with args := s.frame.args.setIfInBounds slot v } }
  else .error (.invalidProgram (.noArgumentSlot slot)) s

/-- The assignment of a local variable. -/
def storeLocal (slot : Nat) (v : Value) : Action Unit := fun s =>
  if slot < s.frame.locals.size then
    .ok () { s with frame := { s.frame with locals := s.frame.locals.setIfInBounds slot v } }
  else .error (.invalidProgram (.noLocalSlot slot)) s

/-- The effect of an instruction of a method, other than a return. -/
def step (p : Image) (hosts : Hosts) (m : Method) : Instr → Action Unit
  | .nop | .label _ => pure ()
  | .pushInt v => push (.int v)
  | .pushFloat bits => push (.float (Float.ofBits bits))
  | .pushStr id => do
    push (.str (← ofOption p.strings[id]? (.invalidProgram (.noString id))))
  | .loadArg slot => Machine.loadArg slot
  | .loadLocal slot => Machine.loadLocal slot
  | .storeArg slot => do Machine.storeArg slot (← pop m)
  | .storeLocal slot => do Machine.storeLocal slot (← pop m)
  | .arith op ty => do
    let rhs ← pop m
    let lhs ← pop m
    push (← ofExcept (Machine.arith op ty lhs rhs))
  | .intToFloat => do push (.float (← popInt m).toFloat)
  | .concat => do
    let rhs ← pop m
    let lhs ← pop m
    let a ← ofExcept lhs.asStr
    let b ← ofExcept rhs.asStr
    push (.str (a ++ b))
  | .strEq => do
    let rhs ← pop m
    let lhs ← pop m
    let a ← ofExcept lhs.asStr
    let b ← ofExcept rhs.asStr
    push (.ofBool (a == b))
  | .branchCmp cond ty target => do
    let rhs ← pop m
    let lhs ← pop m
    if ← ofExcept (holds cond ty lhs rhs) then jump m target
  | .branchIfTrue target => do
    if (← popInt m) ≠ 0 then jump m target
  | .jump target => Machine.jump m target
  | .newArray element rank => Machine.newArray m element rank
  | .loadElem => Machine.arrayGet m 1
  | .storeElem => Machine.arraySet m 1
  | .arrayGet rank => Machine.arrayGet m rank
  | .arraySet rank => Machine.arraySet m rank
  | .call method argc => do enter p method (← popMany m argc)
  | .callHost routine => Machine.callHost p hosts m routine
  | .intrinsic i => Machine.intrinsic m i
  | .pop => do let _ ← Machine.pop m
  | .ret => throw (.invalidProgram .strayReturn)

end Quill.Machine
