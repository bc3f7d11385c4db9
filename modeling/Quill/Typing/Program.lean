import Quill.Typing.Stmt

/-! # Typing of programs

`checkProgram` declares every function first, so that functions can call each other in any
order, then checks the bodies of those that could be declared, and at last asks for the entry
function. -/

namespace Quill.Typing

open Report (Log Finding)
open Scope (Table)

/-- The name of the entry function, which takes no arguments. -/
def entryName : String := "main"

/-- The reports of the parameters whose type has no values. -/
def checkParams (c : Setting) (st : State) (params : List Param) : State :=
  params.foldl (fun st p =>
    if p.ty.isVariable then st else st.add c (.invalidVariableType p.name p.ty.name) p.span) st

def settingOf (file : Option String) (f : FunctionDecl) : Setting :=
  { function := f.name, returnType := f.returnType, file }

/-- The declaration of a function in the root scope, and whether it succeeded. -/
def declareFunction (file : Option String) (st : State) (f : FunctionDecl) : Bool × State :=
  let c := settingOf file f
  let st := checkParams c st f.params
  let arguments := Scope.numbered (f.params.map fun p => (p.name, p.ty))
  match st.table.declareFunction? Table.root f.name f.returnType arguments with
  | some (table, _) => (true, { st with table })
  | none => (false, st.add c (.duplicateFunction f.name f.arity) f.span)

/-- The declarations of a list of functions: each function with its success, after those already
declared, the last first. -/
def declareFunctions (file : Option String) (st : State) (done : List (FunctionDecl × Bool)) :
    List FunctionDecl → List (FunctionDecl × Bool) × State
  | [] => (done.reverse, st)
  | f :: rest =>
    let (ok, st) := declareFunction file st f
    declareFunctions file st ((f, ok) :: done) rest

/-- The declarations of the parameters in the scope of a body; a parameter is always
assigned. -/
def declareParams (c : Setting) (scope : Nat) (st : State) (params : List Param) : State :=
  params.foldl (fun st p =>
    match st.table.declareIdentifier? scope p.name p.ty with
    | some (table, id) => { st with table := table.markEverywhere id }
    | none => st.add c (.duplicateIdentifier p.name) p.span) st

/-- The function with an annotated body; a function with a result must return on every path. -/
def checkBody (file : Option String) (st : State) (f : FunctionDecl) : FunctionDecl × State :=
  let c := settingOf file f
  let (table, scope) := st.table.child Table.root
  let st := declareParams c scope { st with table } f.params
  let (body, returns, st) := checkStmts c scope st [] false f.body
  let st :=
    if !returns && f.returnType != .void then st.add c (.missingReturn f.name) f.span else st
  ({ f with body }, st)

/-- The functions with annotated bodies, as far as they could be declared and have bodies. -/
def checkBodies (file : Option String) (st : State) (done : List FunctionDecl) :
    List (FunctionDecl × Bool) → List FunctionDecl × State
  | [] => (done.reverse, st)
  | (f, declared) :: rest =>
    if declared && !f.isExternal then
      let (f, st) := checkBody file st f
      checkBodies file st (f :: done) rest
    else checkBodies file st (f :: done) rest

/-- The table has an entry function that is not built in. -/
def hasEntry (t : Table) : Bool :=
  match t.resolveFunction? Table.root entryName 0 with
  | some f => !f.isBuiltin
  | none => false

/-- The annotated program and the state after checking it. -/
def checkProgram (p : Program) (st : State) : Program × State :=
  let (declared, st) := declareFunctions p.source st [] p.functions
  let (functions, st) := checkBodies p.source st [] declared
  let st :=
    if hasEntry st.table then st
    else { st with log := addFinding p.source st.log .missingEntry .dummy }
  ({ p with functions }, st)

/-- The annotated program and the state after checking it with a new table. -/
def checkFresh (p : Program) : Program × State := checkProgram p ⟨.initial, .empty⟩

end Quill.Typing
