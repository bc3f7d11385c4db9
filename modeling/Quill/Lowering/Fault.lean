import Quill.Ty.Name

/-! # Faults of lowering

Why no code could be generated for a tree.  A tree that was checked without report has none of
these faults, apart from the limits on the numbers of arguments and local variables. -/

namespace Quill.Lowering

/-- Why a tree has no meaning at all, or is too large. -/
inductive Malformed where
  | declaredTwice (name : String) (arity : Nat)
  | tooManyParameters (function : String)
  | tooManyLocals (function : String)
  | tooManyArguments (function : String)
  | noValue
  | wrongRank (array : String) (rank given : Nat)
  | arrayRank (rank : Nat)
  deriving DecidableEq, Repr

def Malformed.message : Malformed → String
  | .declaredTwice name arity => s!"`{name}` with {arity} argument(s) is declared twice"
  | .tooManyParameters function => s!"too many arguments in `{function}`"
  | .tooManyLocals function => s!"too many locals in `{function}`"
  | .tooManyArguments function => s!"too many arguments to `{function}`"
  | .noValue => "expression without a value used as an operand"
  | .wrongRank array rank given =>
    s!"`{array}` has rank {rank} but {given} indices were given"
  | .arrayRank rank => s!"array of rank {rank}"

/-- Why no code could be generated. -/
inductive Fault where
  | unsupportedOperand (op : String) (ty : Ty)
  | unresolvedSlot (name : String)
  | unresolvedFunction (name : String) (arity : Nat)
  | unmarkedLabel (method : String) (label : Nat)
  | malformed (reason : Malformed)
  deriving DecidableEq, Repr

def Fault.message : Fault → String
  | .unsupportedOperand op ty => s!"operation `{op}` is not supported for `{ty.name}`"
  | .unresolvedSlot name => s!"no argument or local slot for `{name}`"
  | .unresolvedFunction name arity => s!"no method `{name}` taking {arity} argument(s)"
  | .unmarkedLabel method label =>
    s!"label {label} in `{method}` is referenced but never marked"
  | .malformed reason => s!"malformed tree: {reason.message}"

/-- The number of argument slots and of local slots of a method. -/
def slotLimit : Nat := 65536

/-- The largest number of arguments of a call. -/
def callLimit : Nat := 65535

end Quill.Lowering
