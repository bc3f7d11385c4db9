import Quill.Lowering.Stmt

/-! # Images of programs

`lowerProgram` makes an image of a program: first every function is declared as a method without
code, so that calls can name methods in any order, then the bodies get their code, in order.  The
string pool is shared by all methods.  The entry is the function `main` without arguments, unless
it is external. -/

namespace Quill.Lowering

open Code

/-- The methods and host routines declared so far. -/
structure Declared where
  methods : Methods
  hostRoutines : Array HostRoutine
  deriving DecidableEq, Repr

/-- The declaration of a function as a method without code, and as a host routine if it is
external. -/
def declareMethod (d : Declared) (f : FunctionDecl) : Except Fault Declared :=
  if d.methods.any (·.hasSignature f.name f.arity) then
    .error (.malformed (.declaredTwice f.name f.arity))
  else
    let params := f.params.map (·.ty)
    let method : Method :=
      { name := f.name, params, returnType := f.returnType, locals := #[], code := #[],
        labels := #[], host := f.external.map fun _ => d.hostRoutines.size }
    .ok { methods := d.methods.push method
          hostRoutines := match f.external with
            | some package =>
              d.hostRoutines.push { package, name := f.name, params, returnType := f.returnType }
            | none => d.hostRoutines }

/-- The declarations of a list of functions. -/
def declareMethods (d : Declared) : List FunctionDecl → Except Fault Declared
  | [] => .ok d
  | f :: rest => do declareMethods (← declareMethod d f) rest

/-- The parameters as visible variables, after those already there; a later parameter hides an
earlier one of the same name. -/
def bindParams (visible : List (String × Binding)) : Nat → List Param → List (String × Binding)
  | _, [] => visible
  | slot, p :: rest => bindParams ((p.name, ⟨.arg slot, p.ty⟩) :: visible) (slot + 1) rest

/-- The method of a function with a body, and the string pool after it. -/
def lowerFunction (methods : Methods) (pool : Array String) (f : FunctionDecl) :
    Except Fault (Method × Array String) := do
  if slotLimit < f.arity then throw (.malformed (.tooManyParameters f.name))
  let draft := Draft.new f.name (f.params.map (·.ty)) f.returnType
  let st ← lowerStmts methods f.returnType
    { draft, pool, visible := bindParams [] 0 f.params } f.body
  let method ← ((st.draft.emit .nop).emit .ret).finish
  return (method, st.pool)

/-- The methods of a list of functions, after those already done.  An external function keeps
the method that it was declared with. -/
def lowerFunctions (methods : Methods) (pool : Array String) (done : Array Method) :
    List FunctionDecl → Except Fault (Array Method × Array String)
  | [] => .ok (done, pool)
  | f :: rest =>
    if f.isExternal then
      match methods[done.size]? with
      | some m => lowerFunctions methods pool (done.push m) rest
      | none => .error (.unresolvedFunction f.name f.arity)
    else do
      let (m, pool) ← lowerFunction methods pool f
      lowerFunctions methods pool (done.push m) rest

/-- The method to start with: `main` without arguments, if it has code. -/
def entryOf (methods : Array Method) : Option Nat :=
  match methods.findIdx? (·.hasSignature "main" 0) with
  | some id => if (methods[id]?.bind (·.host)).isNone then some id else none
  | none => none

def lowerProgram (p : Program) : Except Fault Image := do
  let declared ← declareMethods ⟨#[], #[]⟩ p.functions
  let (methods, strings) ← lowerFunctions declared.methods #[] #[] p.functions
  return { methods, strings, hostRoutines := declared.hostRoutines, entry := entryOf methods }

end Quill.Lowering
