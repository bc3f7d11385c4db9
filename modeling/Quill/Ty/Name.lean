import Quill.Text.Blank
import Quill.Ty.Basic

/-! # Names of types

`Ty.name` is the text of a type and `Ty.ofName` reads one.  An array type is written as its
element type, then between brackets one comma less than its rank.  The reader also takes the
lower-case aliases, and blanks around the name, before the bracket and between the commas. -/

namespace Quill

/-- The names of the types without brackets, each type's own name first. -/
def primitiveNames : List (String × Ty) :=
  [("Integer", .integer), ("int", .integer), ("Float", .float), ("float", .float),
   ("String", .string), ("string", .string), ("Boolean", .boolean), ("bool", .boolean),
   ("Void", .void), ("void", .void)]

def Element.name : Element → String
  | .integer => "Integer"
  | .float => "Float"
  | .string => "String"
  | .boolean => "Boolean"

def Numeric.name : Numeric → String
  | .integer => "Integer"
  | .float => "Float"

structure UnknownName where
  text : String
  deriving DecidableEq, Repr

/-- What is said of a text that names no type. -/
def UnknownName.message (u : UnknownName) : String := s!"unknown type `{u.text}`"

namespace Ty

/-- The highest rank a type name can spell. -/
def maxRank : Nat := 255

def name : Ty → String
  | .integer => "Integer"
  | .float => "Float"
  | .string => "String"
  | .boolean => "Boolean"
  | .void => "Void"
  | .undefined => "Undefined"
  | .array element rank =>
    element.name ++ "[" ++ String.ofList (List.replicate (rank - 1) ',') ++ "]"

/-- The type of a name without brackets. -/
def ofPrimitive? (cs : List Char) : Option Ty := primitiveNames.lookup (String.ofList cs)

/-- The rank given by the text after an opening bracket: commas and blanks, then the closing
bracket as the last character. -/
def rankOf? (suffix : List Char) : Option Nat :=
  match suffix.getLast? with
  | some ']' =>
    let inner := suffix.dropLast
    let rank := inner.count ',' + 1
    if inner.all (fun c => c == ',' || Text.isBlank c) && rank ≤ maxRank then some rank else none
  | _ => none

/-- The type that a list of characters names. -/
def ofChars? (cs : List Char) : Option Ty :=
  let trimmed := Text.trim cs
  let base := trimmed.takeWhile (· != '[')
  match trimmed.dropWhile (· != '[') with
  | [] => ofPrimitive? base
  | _ :: suffix => do
    let rank ← rankOf? suffix
    let element ← (ofPrimitive? (Text.trim base)).bind Element.ofTy?
    return .array element rank

/-- The type that a text names; a text that names none is kept as it was written. -/
def ofName (s : String) : Except UnknownName Ty :=
  match ofChars? s.toList with
  | some t => .ok t
  | none => .error ⟨s⟩

end Ty

end Quill
