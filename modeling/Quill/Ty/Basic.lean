/-! # Types

The types of the language: four scalars, `Void` for functions without a result, `Undefined` for
a type that is not known, and arrays of scalars with a rank (number of dimensions).

* `Ty.isValue`: the types a variable, an argument or an operand can have.
* `Numeric`: the two number types; every `Integer` widens to `Float`, never the reverse.
* `Ty.assignableTo`: the one rule for initializers, assignments, arguments and results. -/

namespace Quill

/-- The scalar types, which are also the types of array elements. -/
inductive Element where
  | integer
  | float
  | string
  | boolean
  deriving DecidableEq, Repr, Inhabited

/-- The types of expressions, variables and functions. -/
inductive Ty where
  | integer
  | float
  | string
  | boolean
  | void
  | undefined
  | array (element : Element) (rank : Nat)
  deriving DecidableEq, Repr, Inhabited

/-- The number types, on which arithmetic and ordering work. -/
inductive Numeric where
  | integer
  | float
  deriving DecidableEq, Repr, Inhabited

/-! ### Number types -/

namespace Numeric

/-- Position in the order of widening. -/
def priority : Numeric → Nat
  | .integer => 1
  | .float => 2

/-- The wider of two number types: the type in which mixed operands are combined. -/
def widest (a b : Numeric) : Numeric := if b.priority ≤ a.priority then a else b

/-- Values of the first type can stand where the second is required. -/
def canPromote (a b : Numeric) : Bool := a.priority ≤ b.priority

def toTy : Numeric → Ty
  | .integer => .integer
  | .float => .float

end Numeric

/-! ### Element types -/

namespace Element

def toTy : Element → Ty
  | .integer => .integer
  | .float => .float
  | .string => .string
  | .boolean => .boolean

/-- The element type that a scalar type is. -/
def ofTy? : Ty → Option Element
  | .integer => some .integer
  | .float => some .float
  | .string => some .string
  | .boolean => some .boolean
  | .void | .undefined | .array _ _ => none

theorem ofTy?_eq_some_iff {t : Ty} {e : Element} : ofTy? t = some e ↔ t = e.toTy := by
  cases t <;> cases e <;> simp [ofTy?, toTy]

end Element

/-! ### Types -/

namespace Ty

def numeric? : Ty → Option Numeric
  | .integer => some .integer
  | .float => some .float
  | _ => none

/-- A type on which arithmetic works. -/
def isNumeric (t : Ty) : Bool := t.numeric?.isSome

/-- A type with values. -/
def isValue : Ty → Bool
  | .void | .undefined => false
  | _ => true

/-- The type of a number, a string or a Boolean. -/
def isScalar (t : Ty) : Bool := (Element.ofTy? t).isSome

/-- A type whose values have a length. -/
def hasLength : Ty → Bool
  | .string | .array _ _ => true
  | _ => false

/-- A type a variable or an argument can be declared with. -/
def isVariable (t : Ty) : Bool := t.isValue

/-- A value of the first type can be given where the second is required.  An unknown type is
accepted everywhere, so that one error is not reported twice, and everything with a value is
accepted where the type is unknown. -/
def assignableTo (t target : Ty) : Bool :=
  if t = .undefined then true
  else if target = .undefined then t.isValue
  else if t = target then true
  else match t.numeric?, target.numeric? with
    | some a, some b => a.canPromote b
    | _, _ => false

/-- Every type is assignable to itself, `Void` and `Undefined` included. -/
theorem assignableTo_self (t : Ty) : t.assignableTo t = true := by
  unfold assignableTo
  split
  · rfl
  · simp

theorem numeric?_eq_some_iff {t : Ty} {n : Numeric} : t.numeric? = some n ↔ t = n.toTy := by
  cases t <;> cases n <;> simp [numeric?, Numeric.toTy]

end Ty

end Quill
