import Quill.Typing.Expr

/-! # Typing of statements

`checkStmt` annotates the expressions of a statement, declares its variables in the symbol table,
records what is assigned where, and tells whether every path through the statement returns.  A
block has a scope of its own; what is assigned in a block that always runs, or in both branches
of an `if`, counts as assigned after it. -/

namespace Quill.Typing

open Report (Log Finding)
open Scope (Table)

/-- The function whose body is checked: its name and result, and the file that reports name. -/
structure Setting where
  function : String
  returnType : Ty
  file : Option String

/-- The symbol table and the reports so far. -/
structure State where
  table : Table
  log : Log
  deriving DecidableEq, Repr, Inhabited

namespace State

def add (st : State) (c : Setting) (f : Finding) (span : Span) : State :=
  { st with log := addFinding c.file st.log f span }

/-- An annotated expression and the state after checking it. -/
def infer (st : State) (c : Setting) (scope : Nat) (e : Expr) : Expr × State :=
  let (e, log) := Typing.infer ⟨st.table, scope, c.file⟩ st.log e
  (e, { st with log })

/-- The value must be assignable where the target's type is known. -/
def expectAssignable (st : State) (c : Setting) (value : Expr) (target : Ty) (context : String) :
    State :=
  if target = .undefined || value.ty.assignableTo target then st
  else st.add c (.typeMismatch target.name value.ty.name context) value.span

/-- An annotated condition; it must be a Boolean. -/
def condition (st : State) (c : Setting) (scope : Nat) (e : Expr) : Expr × State :=
  let (e, st) := st.infer c scope e
  if e.ty = .boolean ∨ e.ty = .undefined then (e, st)
  else (e, st.add c (.invalidCondition e.ty.name) e.span)

/-- A declaration: the initializer does not see the new variable. -/
def declare (st : State) (c : Setting) (scope : Nat) (span : Span) (name : String) (ty : Ty)
    (init : Option Expr) : Option Expr × State :=
  let st := if ty.isVariable then st else st.add c (.invalidVariableType name ty.name) span
  let (init, st) := match init with
    | some e => let (e, st) := st.infer c scope e; (some e, st)
    | none => (none, st)
  match st.table.declareIdentifier? scope name ty with
  | none => (init, st.add c (.duplicateIdentifier name) span)
  | some (table, id) =>
    let st := { st with table }
    match init with
    | none => (init, st)
    | some value =>
      let st := if ty.isVariable then st.expectAssignable c value ty "initializer" else st
      (init, { st with table := st.table.markAssigned id scope })

/-- An assignment of an annotated value to a variable. -/
def assign (st : State) (c : Setting) (scope : Nat) (name : String) (target : Span)
    (value : Expr) : State :=
  match st.table.resolveIdentifier? scope name with
  | none => st.add c (.unknownIdentifier name) target
  | some i =>
    let st := st.expectAssignable c value i.ty "assignment"
    { st with table := st.table.markAssigned i.id scope }

/-- An assignment of an annotated value to an element; characters of strings cannot be
assigned. -/
def assignElement (st : State) (c : Setting) (scope : Nat) (array : String)
    (indices : List Expr) (target : Span) (value : Expr) : List Expr × State :=
  let (element, indices, log) :=
    inferElement ⟨st.table, scope, c.file⟩ st.log array indices target
  let st : State := { st with log }
  match st.table.resolveIdentifier? scope array with
  | some i =>
    if i.ty = .string then
      (indices, st.add c (.invalidOperand "element assignment" "String") target)
    else (indices, st.expectAssignable c value element "element assignment")
  | none => (indices, st.expectAssignable c value element "element assignment")

/-- A `return`, with a value exactly if the function has a result. -/
def ret (st : State) (c : Setting) (scope : Nat) (span : Span) (value : Option Expr) :
    Option Expr × State :=
  let context := s!"return value of `{c.function}`"
  match value with
  | some value =>
    let (value, st) := st.infer c scope value
    if c.returnType = .void then
      if value.ty.isValue then
        (some value, st.add c (.typeMismatch "Void" value.ty.name context) value.span)
      else (some value, st)
    else (some value, st.expectAssignable c value c.returnType context)
  | none =>
    if c.returnType = .void then (none, st)
    else (none, st.add c (.typeMismatch c.returnType.name "Void" context) span)

end State

mutual

/-- The annotated statement, whether it returns on every path, and the state after it. -/
def checkStmt (c : Setting) (scope : Nat) (st : State) : Stmt → Stmt × Bool × State
  | .expr span e =>
    let (e, st) := st.infer c scope e
    (.expr span e, false, st)
  | .decl span name ty init =>
    let (init, st) := st.declare c scope span name ty init
    (.decl span name ty init, false, st)
  | .assign span name target value =>
    let (value, st) := st.infer c scope value
    (.assign span name target value, false, st.assign c scope name target value)
  | .assignElement span array indices target value =>
    let (value, st) := st.infer c scope value
    let (indices, st) := st.assignElement c scope array indices target value
    (.assignElement span array indices target value, false, st)
  | .ifThen span cond body =>
    let (cond, st) := st.condition c scope cond
    let (table, inner) := st.table.child scope
    let (body, _, st) := checkStmts c inner { st with table } [] false body
    (.ifThen span cond body, false, st)
  | .ifElse span cond body other =>
    let (cond, st) := st.condition c scope cond
    let (table, one) := st.table.child scope
    let (body, bodyReturns, st) := checkStmts c one { st with table } [] false body
    let (table, two) := st.table.child scope
    let (other, otherReturns, st) := checkStmts c two { st with table } [] false other
    (.ifElse span cond body other, bodyReturns && otherReturns,
      { st with table := st.table.promoteBoth one two scope })
  | .while span cond body =>
    let (cond, st) := st.condition c scope cond
    let (table, inner) := st.table.child scope
    let (body, _, st) := checkStmts c inner { st with table } [] false body
    (.while span cond body, false, st)
  | .doWhile span body cond =>
    let (table, inner) := st.table.child scope
    let (body, returns, st) := checkStmts c inner { st with table } [] false body
    let (cond, st) := { st with table := st.table.promote inner scope }.condition c scope cond
    (.doWhile span body cond, returns, st)
  | .ret span value =>
    let (value, st) := st.ret c scope span value
    (.ret span value, true, st)
  | .block span body =>
    let (table, inner) := st.table.child scope
    let (body, returns, st) := checkStmts c inner { st with table } [] false body
    (.block span body, returns, { st with table := st.table.promote inner scope })

/-- The annotated statements of a list, after those already annotated, the last first, and
whether one of them returns on every path.  Statements after a return are checked all the same. -/
def checkStmts (c : Setting) (scope : Nat) (st : State) (done : List Stmt) (returns : Bool) :
    List Stmt → List Stmt × Bool × State
  | [] => (done.reverse, returns, st)
  | s :: rest =>
    let (s, r, st) := checkStmt c scope st s
    checkStmts c scope st (s :: done) (returns || r) rest

end

end Quill.Typing
