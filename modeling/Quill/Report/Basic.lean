import Quill.Report.Code
import Quill.Span

/-! # Reports

A report is what the compiler tells about one fault of a program: a code, a message, and, as far
as they are known, the place, a label for it, the file, and notes.  `Finding` lists the faults
that the compiler itself can find, with the data that their messages mention; `Finding.report`
words them. -/

namespace Quill

/-- What is told about one fault. -/
structure Report where
  code : Report.Code
  message : String
  span : Option Span
  label : Option String
  file : Option String
  notes : Array String
  deriving DecidableEq, Repr, Inhabited

namespace Report

/-- A report with nothing but its code and message. -/
def plain (code : Code) (message : String) : Report :=
  { code, message, span := none, label := none, file := none, notes := #[] }

/-- The report at a place; the dummy span is no place. -/
def withSpan (r : Report) (span : Span) : Report :=
  { r with span := if span.isDummy then none else some span }

/-- The report at a place, with a label for it. -/
def withLabel (r : Report) (span : Span) (label : String) : Report :=
  { r.withSpan span with label := some label }

def withFile (r : Report) (file : String) : Report := { r with file := some file }

def withNote (r : Report) (note : String) : Report := { r with notes := r.notes.push note }

/-- The kind of a report is that of its code. -/
def kind (r : Report) : Kind := r.code.kind

def text (r : Report) : String :=
  let head := s!"error[{r.code.text}]: {r.message}"
  match r.file, r.span with
  | some file, some span => s!"{head} at {file}:{span.text}"
  | none, some span => s!"{head} at {span.text}"
  | some file, none => s!"{head} in {file}"
  | none, none => head

/-- The ending of a noun that is counted. -/
def plural (count : Nat) : String := if count = 1 then "" else "s"

/-- The faults that the compiler finds, with what their messages mention. -/
inductive Finding where
  | duplicateIdentifier (name : String)
  | duplicateFunction (name : String) (arity : Nat)
  | unknownIdentifier (name : String)
  | unknownFunction (name : String)
  | argumentCount (name : String) (found : Nat)
  | typeMismatch (expected found context : String)
  | invalidCondition (found : String)
  | invalidOperands (op lhs rhs : String)
  | invalidOperand (op operand : String)
  | invalidIndex (message : String)
  | missingEntry
  | uninitializedUse (name : String)
  | missingReturn (function : String)
  | invalidVariableType (name ty : String)
  | unknownType (name : String)
  | loweringFailed (message : String)
  | persistenceFailed (message : String)
  deriving DecidableEq, Repr

namespace Finding

def code : Finding → Code
  | .duplicateIdentifier _ => .duplicateIdentifier
  | .duplicateFunction _ _ => .duplicateFunction
  | .unknownIdentifier _ => .unknownIdentifier
  | .unknownFunction _ => .unknownFunction
  | .argumentCount _ _ => .argumentCount
  | .typeMismatch _ _ _ => .typeMismatch
  | .invalidCondition _ => .invalidCondition
  | .invalidOperands _ _ _ | .invalidOperand _ _ => .invalidOperands
  | .invalidIndex _ => .invalidIndex
  | .missingEntry => .missingEntry
  | .uninitializedUse _ => .uninitializedUse
  | .missingReturn _ => .missingReturn
  | .invalidVariableType _ _ => .invalidVariableType
  | .unknownType _ => .unknownType
  | .loweringFailed _ => .loweringFailed
  | .persistenceFailed _ => .persistenceFailed

def message : Finding → String
  | .duplicateIdentifier name => s!"identifier `{name}` is already declared in this scope"
  | .duplicateFunction name arity =>
    s!"function `{name}` with {arity} argument{plural arity} is already declared"
  | .unknownIdentifier name => s!"cannot find identifier `{name}` in this scope"
  | .unknownFunction name => s!"cannot find function `{name}`"
  | .argumentCount name found =>
    s!"no overload of `{name}` takes {found} argument{plural found}"
  | .typeMismatch expected found context =>
    s!"type mismatch in {context}: expected `{expected}`, found `{found}`"
  | .invalidCondition found => s!"condition must be `Boolean`, found `{found}`"
  | .invalidOperands op lhs rhs => s!"cannot apply `{op}` to `{lhs}` and `{rhs}`"
  | .invalidOperand op operand => s!"cannot apply `{op}` to `{operand}`"
  | .invalidIndex message => message
  | .missingEntry => "entry function expected"
  | .uninitializedUse name => s!"use of possibly unassigned variable `{name}`"
  | .missingReturn function => s!"not all code paths in `{function}` return a value"
  | .invalidVariableType name ty => s!"`{name}` cannot have type `{ty}`"
  | .unknownType name => s!"unknown type `{name}`"
  | .loweringFailed message => s!"code generation failed: {message}"
  | .persistenceFailed message => s!"could not write compiled program: {message}"

/-- The label of the place of a finding; `none` for a finding that has no place. -/
def label : Finding → Option String
  | .duplicateIdentifier _ | .duplicateFunction _ _ => some "redeclared here"
  | .unknownIdentifier _ | .unknownFunction _ => some "not found"
  | .argumentCount _ _ => some "wrong number of arguments"
  | .typeMismatch expected _ _ => some s!"expected `{expected}`"
  | .invalidCondition _ => some "not a Boolean"
  | .invalidOperands _ _ _ => some "invalid operands"
  | .invalidOperand _ _ => some "invalid operand"
  | .invalidIndex _ => some "invalid index"
  | .uninitializedUse _ => some "not assigned on every path"
  | .missingReturn _ => some "function declared here"
  | .invalidVariableType _ _ => some "invalid type"
  | .unknownType _ => some "not a type"
  | .missingEntry | .loweringFailed _ | .persistenceFailed _ => none

def notes : Finding → Array String
  | .duplicateFunction _ _ => #["overloads must differ in the number of arguments"]
  | .missingEntry => #["declare `function main(): Void`"]
  | _ => #[]

/-- The report of a finding at a place. -/
def report (f : Finding) (span : Span) : Report :=
  let bare := { plain f.code f.message with notes := f.notes }
  match f.label with
  | some label => bare.withLabel span label
  | none => bare

end Finding

end Report

end Quill
