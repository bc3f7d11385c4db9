import Quill.Ty.Name

/-! # Faults of the machine

Why a run ended without a result.  Programs that were checked and lowered can only run into the
first few; the others tell that an image is not what a compiler produces. -/

namespace Quill.Machine

/-- The kinds of values that the machine tells apart. -/
inductive Kind where
  | integer
  | float
  | string
  | array
  deriving DecidableEq, Repr

def Kind.name : Kind → String
  | .integer => "integer"
  | .float => "float"
  | .string => "string"
  | .array => "array"

/-- What is wrong with an image, or with the way it is run. -/
inductive Invalid where
  | noEntry
  | noMethod (method : Nat)
  | external (name : String)
  | argumentCount (name : String) (arity given : Nat)
  | pastEnd (name : String)
  | unboundLabel (label : Nat) (name : String)
  | noString (string : Nat)
  | noArgumentSlot (slot : Nat)
  | noLocalSlot (slot : Nat)
  | noHostRoutine (routine : Nat)
  | indexCount (given rank : Nat)
  | strayReturn
  deriving DecidableEq, Repr

def Invalid.message : Invalid → String
  | .noEntry => "no entry method"
  | .noMethod method => s!"no method m{method}"
  | .external name => s!"`{name}` is external and has no code"
  | .argumentCount name arity given => s!"`{name}` takes {arity} argument(s), {given} given"
  | .pastEnd name => s!"`{name}` runs past its last instruction"
  | .unboundLabel label name => s!"label L{label} is not bound in `{name}`"
  | .noString string => s!"no string #{string}"
  | .noArgumentSlot slot => s!"no argument slot {slot}"
  | .noLocalSlot slot => s!"no local slot {slot}"
  | .noHostRoutine routine => s!"no host routine h{routine}"
  | .indexCount given rank => s!"{given} indices for an array of rank {rank}"
  | .strayReturn => "return must be handled by the execution loop"

/-- Why a run ended without a result. -/
inductive Fault where
  | divisionByZero
  | indexOutOfBounds (index : Int64) (length : Nat)
  | invalidDimension (dim : Int64)
  | unknownHostRoutine (name : String)
  | hostFailure (routine message : String)
  | malformedNumber (input expected : String)
  | stackUnderflow (method : String)
  | stackImbalance (method : String) (depth expected : Nat)
  | stepLimitExceeded (limit : Nat)
  | typeMismatch (expected found : Kind)
  | invalidProgram (reason : Invalid)
  | console (message : String)
  /-- An array has fewer elements than its dimensions promise. -/
  | missingElement (offset length : Nat)
  deriving DecidableEq, Repr

def Fault.message : Fault → String
  | .divisionByZero => "division by zero"
  | .indexOutOfBounds index length =>
    s!"index {index.toInt} out of bounds for length {length}"
  | .invalidDimension dim => s!"invalid array dimension {dim.toInt}"
  | .unknownHostRoutine name => s!"no host routine `{name}` is registered"
  | .hostFailure routine message => s!"host routine `{routine}` failed: {message}"
  | .malformedNumber input expected => s!"`{input}` is not a valid {expected}"
  | .stackUnderflow method => s!"operand stack underflow in `{method}`"
  | .stackImbalance method depth expected =>
    s!"`{method}` returned with {depth} value(s) on its operand stack, expected {expected}"
  | .stepLimitExceeded limit => s!"step limit of {limit} exceeded"
  | .typeMismatch expected found => s!"expected {expected.name}, found {found.name}"
  | .invalidProgram reason => s!"invalid program: {reason.message}"
  | .console message => s!"console i/o failed: {message}"
  | .missingElement offset length =>
    s!"index out of bounds: the len is {length} but the index is {offset}"

end Quill.Machine
