import Quill.Machine.Console
import Quill.Machine.Host

/-! # States of the machine

The frames of all active calls share one operand stack.  A frame remembers the height of the
stack at which it started, its base, and its instructions cannot take operands below it.
`Action` is what an instruction does: it changes the state, gives a result, or ends in a fault,
in which case the state of that moment is kept. -/

namespace Quill.Machine

open Code

/-- An active call: the method, its variables, the position of the next instruction, and the
height of the operand stack below its own operands. -/
structure Frame where
  method : Nat
  args : Array Value
  locals : Array Value
  pc : Nat
  base : Nat
  deriving Inhabited

/-- The state of a run: the operand stack, the current frame and those that wait for it, the
arrays, and the console. -/
structure State where
  stack : Array Value
  frame : Frame
  callers : List Frame
  heap : Heap
  console : Console
  deriving Inhabited

abbrev Action := EStateM Fault State

/-- A result that does not depend on the state. -/
def ofExcept (r : Except Fault α) : Action α := fun s =>
  match r with
  | .ok a => .ok a s
  | .error e => .error e s

def ofOption (r : Option α) (e : Fault) : Action α := fun s =>
  match r with
  | some a => .ok a s
  | none => .error e s

def push (v : Value) : Action Unit := fun s => .ok () { s with stack := s.stack.push v }

/-- The top operand of the current frame. -/
def pop (m : Method) : Action Value := fun s =>
  if s.stack.size ≤ s.frame.base then .error (.stackUnderflow m.name) s
  else match s.stack.back? with
    | some v => .ok v { s with stack := s.stack.pop }
    | none => .error (.stackUnderflow m.name) s

/-- The so many top operands of the current frame, in the order in which they were pushed. -/
def popMany (m : Method) (count : Nat) : Action (List Value) := fun s =>
  if s.stack.size < s.frame.base + count then .error (.stackUnderflow m.name) s
  else
    let height := s.stack.size - count
    let taken := (s.stack.extract height s.stack.size).toList
    .ok taken { s with stack := s.stack.shrink height }

def popInt (m : Method) : Action Int64 := do ofExcept (← pop m).asInt

def popStr (m : Method) : Action String := do ofExcept (← pop m).asStr

/-- The so many top operands, integers. -/
def popInts (m : Method) (count : Nat) : Action (List Int64) := do
  ofExcept (Value.asInts (← popMany m count))

def jump (m : Method) (label : Nat) : Action Unit := do
  let target ← ofOption (m.position? label) (.invalidProgram (.unboundLabel label m.name))
  fun s => .ok () { s with frame := { s.frame with pc := target } }

/-- The console after writing on it, unless it does not work.  The state is taken apart first, so
that the text written before is extended in place. -/
def onConsole (f : Console → Console) : Action Unit := fun s =>
  match s.console.fault with
  | some fault => .error (.console fault) s
  | none =>
    let ⟨stack, frame, callers, heap, console⟩ := s
    .ok () ⟨stack, frame, callers, heap, f console⟩

/-! ### Frames -/

/-- The initial values of local variables, after those already there. -/
def initialLocals (heap : Heap) (done : Array Value) : List Local → Array Value × Heap
  | [] => (done, heap)
  | l :: rest =>
    let (v, heap) := heap.initial l.ty
    initialLocals heap (done.push v) rest

/-- The method that a call names; it must have code and take so many arguments. -/
def callee (p : Image) (method : Nat) (argc : Nat) : Except Fault Method :=
  match p.methods[method]? with
  | none => .error (.invalidProgram (.noMethod method))
  | some m =>
    if m.host.isSome then .error (.invalidProgram (.external m.name))
    else if argc ≠ m.arity then .error (.invalidProgram (.argumentCount m.name m.arity argc))
    else .ok m

/-- The frame of a new call above a stack of some height, and the heap with the arrays of its
local variables. -/
def newFrame (m : Method) (heap : Heap) (height : Nat) (method : Nat) (args : List Value) :
    Frame × Heap :=
  let (locals, heap) := initialLocals heap #[] m.locals.toList
  ({ method, args := args.toArray, locals, pc := 0, base := height }, heap)

def enter (p : Image) (method : Nat) (args : List Value) : Action Unit := fun s =>
  match callee p method args.length with
  | .error e => .error e s
  | .ok m =>
    let (frame, heap) := newFrame m s.heap s.stack.size method args
    .ok () { s with frame, callers := s.frame :: s.callers, heap }

/-- The end of a call: its operands must be exactly its result.  The result is given if no call
waits for it, and else becomes an operand of the caller. -/
def leave (m : Method) : Action (Option (Option Value)) := fun s =>
  let depth := s.stack.size - s.frame.base
  let expected := if m.returnsValue then 1 else 0
  if depth ≠ expected then .error (.stackImbalance m.name depth expected) s
  else
    let result := if m.returnsValue then s.stack.back? else none
    match s.callers with
    | [] => .ok (some result) { s with stack := if m.returnsValue then s.stack.pop else s.stack }
    | frame :: callers => .ok none { s with frame, callers }

end Quill.Machine
