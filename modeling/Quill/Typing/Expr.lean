import Quill.Report.Log
import Quill.Scope.Assigned
import Quill.Tree.Basic
import Quill.Ty.Name

/-! # Typing of expressions

`infer` annotates an expression and its parts with their types, and reports what is wrong with
them.  It reads the symbol table and does not change it.  An operand whose own type could not be
found has type `Undefined`, and no further report is made because of it. -/

namespace Quill.Typing

open Report (Log Finding)
open Scope (Table)

/-- What an expression can see: the symbol table, the scope it stands in, and the file that
reports name. -/
structure Sight where
  table : Table
  scope : Nat
  file : Option String

/-- The log with one more report, about the file if there is one. -/
def addFinding (file : Option String) (log : Log) (f : Finding) (span : Span) : Log :=
  let r := f.report span
  log.add (match file with
    | some file => r.withFile file
    | none => r)

namespace Sight

def add (s : Sight) (log : Log) (f : Finding) (span : Span) : Log := addFinding s.file log f span

/-- The type of a variable that is read; it must be declared, and assigned on every path. -/
def read (s : Sight) (log : Log) (name : String) (span : Span) : Ty × Log :=
  match s.table.resolveIdentifier? s.scope name with
  | none => (.undefined, s.add log (.unknownIdentifier name) span)
  | some i =>
    if s.table.isAssignedAlong i.id s.scope then (i.ty, log)
    else (i.ty, s.add log (.uninitializedUse name) span)

/-- The type of an operation on two operands, given its result if the operands fit and its type
if that of an operand is not known. -/
def combine (s : Sight) (log : Log) (span : Span) (op : String) (lhs rhs : Ty)
    (result : Option Ty) (unknown : Ty) : Ty × Log :=
  if lhs = .undefined ∨ rhs = .undefined then (unknown, log)
  else match result with
    | some t => (t, log)
    | none => (.undefined, s.add log (.invalidOperands op lhs.name rhs.name) span)

def negate (s : Sight) (log : Log) (span : Span) (operand : Ty) : Ty × Log :=
  if operand = .boolean ∨ operand = .undefined then (.boolean, log)
  else (.undefined, s.add log (.invalidOperand "not" operand.name) span)

/-- An index or a dimension must be an integer. -/
def expectInteger (s : Sight) (log : Log) (what : String) (e : Expr) : Log :=
  if e.ty = .integer ∨ e.ty = .undefined then log
  else s.add log (.invalidIndex s!"{what} must be `Integer`, found `{e.ty.name}`") e.span

/-- The type of an element, given the type of what is indexed and the number of indices. -/
def element (s : Sight) (log : Log) (span : Span) (array : String) (base : Ty) (count : Nat) :
    Ty × Log :=
  match base with
  | .undefined => (.undefined, log)
  | .array element rank =>
    if rank = count then (element.toTy, log)
    else
      let given := if count = 1 then " was" else "s were"
      (.undefined, s.add log
        (.invalidIndex s!"`{array}` has rank {rank}, but {count} index expression{given} given")
        span)
  | other =>
    if other = .string ∧ count = 1 then (.string, log)
    else (.undefined, s.add log
      (.invalidIndex s!"`{array}` of type `{other.name}` cannot be indexed this way") span)

/-- The type of a new array. -/
def array (s : Sight) (log : Log) (span : Span) (element : Element) (count : Nat) : Ty × Log :=
  if 1 ≤ count ∧ count ≤ Ty.maxRank then (.array element count, log)
  else (.undefined, s.add log
    (.invalidIndex s!"an array needs between 1 and 255 dimensions, found {count}") span)

/-- Each argument of a call must fit its parameter; positions count from `i`. -/
def arguments (s : Sight) (name : String) (isBuiltin : Bool) :
    Log → Nat → List Expr → List Scope.Argument → Log
  | log, i, arg :: args, param :: params =>
    let log :=
      if !arg.ty.assignableTo param.ty then
        s.add log (.typeMismatch param.ty.name arg.ty.name s!"argument {i} of `{name}`") arg.span
      else if isBuiltin && arg.ty.isValue && !Scope.builtinAccepts name arg.ty then
        s.add log (.invalidOperand name arg.ty.name) arg.span
      else log
    s.arguments name isBuiltin log (i + 1) args params
  | log, _, _, _ => log

/-- The type of a call with annotated arguments. -/
def call (s : Sight) (log : Log) (span : Span) (name : String) (args : List Expr) : Ty × Log :=
  match s.table.resolveFunction? s.scope name args.length with
  | some f => (f.returnType, s.arguments name f.isBuiltin log 1 args f.arguments)
  | none =>
    if s.table.hasFunctionNamed s.scope name then
      (.undefined, s.add log (.argumentCount name args.length) span)
    else (.undefined, s.add log (.unknownFunction name) span)

end Sight

mutual

/-- The annotated expression and the log after checking it. -/
def infer (s : Sight) (log : Log) : Expr → Expr × Log
  | .literal n v => (.literal { n with ty := v.ty } v, log)
  | .name n x =>
    let (t, log) := s.read log x n.span
    (.name { n with ty := t } x, log)
  | .arith n op l r =>
    let (l, log) := infer s log l
    let (r, log) := infer s log r
    let (t, log) := s.combine log n.span op.symbol l.ty r.ty (op.result? l.ty r.ty) .undefined
    (.arith { n with ty := t } op l r, log)
  | .compare n op l r =>
    let (l, log) := infer s log l
    let (r, log) := infer s log r
    let (t, log) := s.combine log n.span op.symbol l.ty r.ty (op.result? l.ty r.ty) .boolean
    (.compare { n with ty := t } op l r, log)
  | .logic n op l r =>
    let (l, log) := infer s log l
    let (r, log) := infer s log r
    let (t, log) :=
      s.combine log n.span op.symbol l.ty r.ty (LogicOp.result? l.ty r.ty) .boolean
    (.logic { n with ty := t } op l r, log)
  | .not n x =>
    let (x, log) := infer s log x
    let (t, log) := s.negate log n.span x.ty
    (.not { n with ty := t } x, log)
  | .index n a is =>
    let (base, log) := s.read log a n.span
    let (is, log) := inferAll s (some "index") log [] is
    let (t, log) := s.element log n.span a base is.length
    (.index { n with ty := t } a is, log)
  | .call n f args =>
    let (args, log) := inferAll s none log [] args
    let (t, log) := s.call log n.span f args
    (.call { n with ty := t } f args, log)
  | .newArray n e dims =>
    let (dims, log) := inferAll s (some "array dimensions") log [] dims
    let (t, log) := s.array log n.span e dims.length
    (.newArray { n with ty := t } e dims, log)

/-- The annotated expressions of a list, after those already annotated, the last first.  If they
are to be integers, `integers` says what they are. -/
def inferAll (s : Sight) (integers : Option String) (log : Log) (done : List Expr) :
    List Expr → List Expr × Log
  | [] => (done.reverse, log)
  | e :: es =>
    let (e, log) := infer s log e
    let log := match integers with
      | some what => s.expectInteger log what e
      | none => log
    inferAll s integers log (e :: done) es

end

/-- The type of an element that is read or assigned, and its annotated indices. -/
def inferElement (s : Sight) (log : Log) (array : String) (indices : List Expr) (span : Span) :
    Ty × List Expr × Log :=
  let (base, log) := s.read log array span
  let (indices, log) := inferAll s (some "index") log [] indices
  let (t, log) := s.element log span array base indices.length
  (t, indices, log)

end Quill.Typing
