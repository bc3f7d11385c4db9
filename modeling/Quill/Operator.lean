import Quill.Ty.Basic

/-! # Operators

The operators of the language and the types they work on.  Arithmetic takes numbers, the result
having the wider type, and `+` also joins two strings.  Numbers can be compared in every way,
two strings or two Booleans only for equality.  The logical operators take Booleans. -/

namespace Quill

inductive ArithOp where
  | add
  | sub
  | mul
  | div
  deriving DecidableEq, Repr, Inhabited

inductive Comparison where
  | lt
  | gt
  | le
  | ge
  | eq
  | ne
  deriving DecidableEq, Repr, Inhabited

/-- The logical operators; both of their operands are always evaluated. -/
inductive LogicOp where
  | and
  | or
  deriving DecidableEq, Repr, Inhabited

namespace ArithOp

/-- The operator as written in a program. -/
def symbol : ArithOp → String
  | .add => "+"
  | .sub => "-"
  | .mul => "*"
  | .div => "/"

/-- The type of the result, if the operands have types that the operator takes. -/
def result? (op : ArithOp) (lhs rhs : Ty) : Option Ty :=
  match lhs.numeric?, rhs.numeric? with
  | some l, some r => some (l.widest r).toTy
  | _, _ => if op = .add ∧ lhs = .string ∧ rhs = .string then some .string else none

end ArithOp

namespace Comparison

/-- The comparison as written in a program. -/
def symbol : Comparison → String
  | .lt => "<"
  | .gt => ">"
  | .le => "<="
  | .ge => ">="
  | .eq => "=="
  | .ne => "!="

/-- The comparison only asks whether its operands are equal. -/
def isEquality : Comparison → Bool
  | .eq | .ne => true
  | _ => false

/-- The type of the result, if the operands have types that can be compared this way. -/
def result? (op : Comparison) (lhs rhs : Ty) : Option Ty :=
  if lhs.isNumeric && rhs.isNumeric then some .boolean
  else if op.isEquality && lhs = rhs && (lhs = .string || lhs = .boolean) then some .boolean
  else none

end Comparison

namespace LogicOp

/-- The operator as written in a program. -/
def symbol : LogicOp → String
  | .and => "and"
  | .or => "or"

/-- The type of the result, if both operands are Booleans. -/
def result? (lhs rhs : Ty) : Option Ty :=
  if lhs = .boolean ∧ rhs = .boolean then some .boolean else none

end LogicOp

end Quill
