import Quill.Text.Blank

/-! # Report codes

Every report carries a code `E` and four digits.  Codes of the first thousand are about the
wording of a program, those of the second about its meaning, and those of the fifth about code
generation. -/

namespace Quill.Report

inductive Code where
  | unexpectedToken
  | expectedExpression
  | unclosedDelimiter
  | typeMismatch
  | unknownType
  | unknownIdentifier
  | argumentCount
  | unknownFunction
  | duplicateIdentifier
  | duplicateFunction
  | missingEntry
  | uninitializedUse
  | missingReturn
  | invalidCondition
  | invalidOperands
  | invalidVariableType
  | invalidIndex
  | loweringFailed
  | persistenceFailed
  deriving DecidableEq, Repr, Inhabited

/-- The stage of the compiler that a code belongs to. -/
inductive Kind where
  | wording
  | meaning
  deriving DecidableEq, Repr

def Kind.name : Kind → String
  | .wording => "syntax"
  | .meaning => "semantic"

namespace Code

def all : List Code :=
  [.unexpectedToken, .expectedExpression, .unclosedDelimiter, .typeMismatch, .unknownType,
   .unknownIdentifier, .argumentCount, .unknownFunction, .duplicateIdentifier,
   .duplicateFunction, .missingEntry, .uninitializedUse, .missingReturn, .invalidCondition,
   .invalidOperands, .invalidVariableType, .invalidIndex, .loweringFailed, .persistenceFailed]

def text : Code → String
  | .unexpectedToken => "E1001"
  | .expectedExpression => "E1002"
  | .unclosedDelimiter => "E1003"
  | .typeMismatch => "E2001"
  | .unknownType => "E2002"
  | .unknownIdentifier => "E2003"
  | .argumentCount => "E2004"
  | .unknownFunction => "E2005"
  | .duplicateIdentifier => "E2006"
  | .duplicateFunction => "E2007"
  | .missingEntry => "E2008"
  | .uninitializedUse => "E2009"
  | .missingReturn => "E2010"
  | .invalidCondition => "E2011"
  | .invalidOperands => "E2012"
  | .invalidVariableType => "E2013"
  | .invalidIndex => "E2014"
  | .loweringFailed => "E5001"
  | .persistenceFailed => "E5002"

/-- The code is about the wording of a program. -/
def isWording : Code → Bool
  | .unexpectedToken | .expectedExpression | .unclosedDelimiter => true
  | _ => false

/-- The code is about code generation. -/
def isLowering : Code → Bool
  | .loweringFailed | .persistenceFailed => true
  | _ => false

def kind (c : Code) : Kind := if c.isWording then .wording else .meaning

/-- The code that a text spells, in any case and with blanks around it. -/
def ofText? (s : String) : Option Code :=
  let wanted := (Text.trim s.toList).map Char.toLower
  all.find? fun c => c.text.toList.map Char.toLower == wanted

/-- What a code means, for the reader of a report. -/
def description : Code → String
  | .unexpectedToken => "The parser met a token it did not expect at this position."
  | .expectedExpression => "An expression was required here but something else was found."
  | .unclosedDelimiter => "An opening `(`, `[` or `\x7b` has no matching closing delimiter."
  | .typeMismatch =>
    "A value's type does not match the type required by its context. Integer " ++
    "values widen to Float implicitly; no other conversion is implicit."
  | .unknownType => "The type name does not denote a Quill type."
  | .unknownIdentifier => "The identifier is not declared in this scope or any enclosing one."
  | .argumentCount =>
    "A function with this name exists, but not with this number of arguments."
  | .unknownFunction => "No function with this name is declared and none is built in."
  | .duplicateIdentifier =>
    "A variable with this name is already declared in the same block. Shadowing a " ++
    "variable from an enclosing block is allowed."
  | .duplicateFunction =>
    "A function with this name and the same number of arguments is already " ++
    "declared (or is built in). Overloads must differ in arity."
  | .missingEntry => "Every program needs a `main` function taking no arguments."
  | .uninitializedUse =>
    "The variable may be read before any value has been assigned to it on some " ++
    "execution path."
  | .missingReturn =>
    "The function declares a return type but some path reaches the end of its " ++
    "body without returning a value."
  | .invalidCondition => "Conditions of `if`, `while` and `do-while` must be Boolean."
  | .invalidOperands => "The operator cannot be applied to operands of these types."
  | .invalidVariableType => "Variables and arguments cannot have type Void."
  | .invalidIndex =>
    "Indexing needs an array (or string) and one Integer index per array rank."
  | .loweringFailed =>
    "Code generation met a tree it could not lower. This indicates a compiler bug: " ++
    "earlier stages should have rejected the program."
  | .persistenceFailed => "The compiled program could not be written to its destination."

theorem mem_all (c : Code) : c ∈ all := by cases c <;> decide

end Code

end Quill.Report
