import Quill.Lowering.Program

/-! # The emitter

Lowering with tables, as a session does it for one program after the other.  An emitter holds the
image under construction and the tables that tell where the image has the method of a signature, the
host routine of one, and a text of the string pool.

* A fault leaves the tables and the image as they were when it arose.
* A finished image is given away, with an empty one left in its place; the tables stay filled.
* Lowering therefore starts with `reset`: what one program has left in the tables would pass for
  functions and texts of the next.

While the body of a function is lowered, only the string pool and its table grow (`Work`); methods
and host routines are looked up as they are at its start. -/

namespace Quill.Lowering

open Code

/-- What tells functions apart: a name and a number of arguments. -/
abbrev Emitter.Signature := String × Nat

/-- The places of things by their keys; the newest entry of a key counts. -/
abbrev Emitter.Index (κ : Type) := List (κ × Nat)

/-- The image under construction, and where it has what. -/
structure Emitter where
  methods : Emitter.Index Emitter.Signature
  externals : Emitter.Index Emitter.Signature
  strings : Emitter.Index String
  image : Image
  deriving DecidableEq, Repr, Inhabited

namespace Emitter

def emptyImage : Image := { methods := #[], strings := #[], hostRoutines := #[], entry := none }

/-- The emitter that has lowered nothing. -/
def new : Emitter := { methods := [], externals := [], strings := [], image := emptyImage }

/-- The emitter with its tables cleared and an empty image. -/
def reset (e : Emitter) : Emitter :=
  { e with methods := [], externals := [], strings := [], image := emptyImage }

/-! ### Bodies -/

/-- What changes while a body is lowered: the state of lowering, and where its string pool has each
text. -/
structure Work where
  state : State
  strings : Index String

/-- A step in the lowering of a body.  A fault leaves the work as it was at that moment. -/
abbrev Emitting := EStateM Fault Work

/-- A result that does not depend on the work. -/
def ofExcept (r : Except Fault α) : Emitting α := fun w =>
  match r with
  | .ok a => .ok a w
  | .error fault => .error fault w

/-- A change of the method under construction. -/
def change (f : State → State) : Emitting Unit := fun ⟨state, strings⟩ => .ok () ⟨f state, strings⟩

def emit (i : Instr) : Emitting Unit := change (·.emit i)

/-- A label marked at the end of the code. -/
def mark (label : Nat) : Emitting Unit := change (·.mark label)

def newLabel : Emitting Nat := fun ⟨state, strings⟩ =>
  let (label, state) := state.newLabel
  .ok label ⟨state, strings⟩

def visible : Emitting (List (String × Binding)) := fun w => .ok w.state.visible w

/-- The variables that were visible before. -/
def restore (visible : List (String × Binding)) : Emitting Unit := change (·.restore visible)

def resolve (name : String) : Emitting Binding := fun w => ofExcept (w.state.resolve name) w

/-- A new local variable, and its slot. -/
def declareLocal (name : String) (ty : Ty) : Emitting Nat :=
  fun ⟨⟨draft, pool, visible⟩, strings⟩ =>
    match draft.allocLocal name ty with
    | (.ok slot, draft) =>
      .ok slot ⟨⟨draft, pool, (name, ⟨.local slot, ty⟩) :: visible⟩, strings⟩
    | (.error fault, draft) => .error fault ⟨⟨draft, pool, visible⟩, strings⟩

/-- The place of a text in the string pool, where it is put on its first use. -/
def intern (s : String) : Emitting Nat := fun ⟨state, strings⟩ =>
  match strings.lookup s with
  | some id => .ok id ⟨state, strings⟩
  | none =>
    let id := state.pool.size
    .ok id ⟨{ state with pool := state.pool.push s }, (s, id) :: strings⟩

/-- The code of a literal; only a text needs the pool. -/
def literal : Literal → Emitting Unit
  | .string s => do emit (.pushStr (← intern s))
  | v => change (·.literal v)

/-- The end of code whose value is used where a type is required. -/
def operand (ty target : Ty) (leaves : Bool) : Emitting Unit := do
  if leaves then
    if ty = .integer ∧ target = .float then emit .intToFloat
  else throw (.malformed .noValue)

/-- The end of code whose value is not used. -/
def discard (leaves : Bool) : Emitting Unit := do
  if leaves then emit .pop

/-- How a function is called, by the tables: the types its arguments are brought to, the code after
them, and whether there is a value.  A call of no method is one of a built-in function. -/
def callPlan (e : Emitter) (name : String) (args : List Ty) :
    Except Fault (List Ty × Except Fault (List Instr) × Bool) :=
  match e.methods.lookup (name, args.length) with
  | some id =>
    match e.image.methods[id]? with
    | some m =>
      let code := match e.externals.lookup (name, args.length) with
        | some routine => .ok [.callHost routine]
        | none =>
          if args.length ≤ callLimit then .ok [.call id args.length]
          else .error (.malformed (.tooManyArguments name))
      .ok (m.params, code, m.returnsValue)
    | none => .error (.unresolvedFunction name args.length)
  | none => Lowering.callPlan #[] name args

mutual

/-- The code of an expression, and whether it leaves a value. -/
def lowerValue (e : Emitter) : Expr → Emitting Bool
  | .literal _ v => do
    literal v
    return true
  | .name _ x => do
    emit (← resolve x).slot.load
    return true
  | .arith n op l r => do
    let i ← ofExcept (arithInstr op n.ty)
    operand l.ty n.ty (← lowerValue e l)
    operand r.ty n.ty (← lowerValue e r)
    emit i
    return true
  | .compare _ op l r => do
    let (ty, between, numeric) ← ofExcept (comparisonPlan op l.ty r.ty)
    operand l.ty ty (← lowerValue e l)
    operand r.ty ty (← lowerValue e r)
    change fun st => (st.emitAll between).pushTruth (.branchCmp op numeric) 1
    return true
  | .logic _ op l r => do
    operand l.ty .boolean (← lowerValue e l)
    operand r.ty .boolean (← lowerValue e r)
    change fun st => (st.emit (logicInstr op)).pushTruth .branchIfTrue 1
    return true
  | .not _ x => do
    operand x.ty .boolean (← lowerValue e x)
    change (·.pushTruth .branchIfTrue 0)
    return true
  | .index _ a is => do
    let b ← resolve a
    emit b.slot.load
    lowerAll e (List.replicate is.length .integer) is
    emit (← ofExcept (elementInstr b.ty is.length))
    return true
  | .call _ f args => do
    let (targets, code, returns) ← ofExcept (e.callPlan f (args.map Expr.ty))
    lowerAll e targets args
    let code ← ofExcept code
    change (·.emitAll code)
    return returns
  | .newArray _ element dims => do
    lowerAll e (List.replicate dims.length .integer) dims
    if 1 ≤ dims.length ∧ dims.length ≤ Ty.maxRank then
      emit (.newArray element dims.length)
      return true
    else throw (.malformed (.arrayRank dims.length))

/-- The code of a list of expressions, each brought to its type. -/
def lowerAll (e : Emitter) : List Ty → List Expr → Emitting Unit
  | t :: ts, x :: xs => do
    operand x.ty t (← lowerValue e x)
    lowerAll e ts xs
  | _, _ => return

end

/-- The code of an expression whose value is used where a type is required. -/
def lowerAs (e : Emitter) (x : Expr) (target : Ty) : Emitting Unit := do
  operand x.ty target (← lowerValue e x)

/-- The code of an assignment to an element. -/
def lowerElement (e : Emitter) (array : String) (indices : List Expr) (value : Expr) :
    Emitting Unit := do
  let b ← resolve array
  match b.ty with
  | .array element rank =>
    if rank ≠ indices.length then throw (.malformed (.wrongRank array rank indices.length))
    emit b.slot.load
    lowerAll e (List.replicate indices.length .integer) indices
    lowerAs e value element.toTy
    emit (if rank = 1 then .storeElem else .arraySet rank)
  | ty => throw (.unsupportedOperand "element assignment" ty)

mutual

/-- The code of a statement in a function with a result type. -/
def lowerStmt (e : Emitter) (returnType : Ty) : Stmt → Emitting Unit
  | .expr _ x => do discard (← lowerValue e x)
  | .decl _ name ty none => do
    let _ ← declareLocal name ty
  | .decl _ name ty (some init) => do
    lowerAs e init ty
    emit (.storeLocal (← declareLocal name ty))
  | .assign _ name _ value => do
    let b ← resolve name
    lowerAs e value b.ty
    emit b.slot.store
  | .assignElement _ array indices _ value => lowerElement e array indices value
  | .ifThen _ cond body => do
    let outer ← visible
    let yes ← newLabel
    let stop ← newLabel
    lowerAs e cond .boolean
    emit (.branchIfTrue yes)
    emit (.jump stop)
    mark yes
    lowerStmts e returnType body
    restore outer
    mark stop
  | .ifElse _ cond body other => do
    let outer ← visible
    let yes ← newLabel
    let stop ← newLabel
    lowerAs e cond .boolean
    emit (.branchIfTrue yes)
    lowerStmts e returnType other
    restore outer
    emit (.jump stop)
    mark yes
    lowerStmts e returnType body
    restore outer
    mark stop
  | .while _ cond body => do
    let outer ← visible
    let test ← newLabel
    let yes ← newLabel
    let stop ← newLabel
    mark test
    lowerAs e cond .boolean
    emit (.branchIfTrue yes)
    emit (.jump stop)
    mark yes
    lowerStmts e returnType body
    restore outer
    emit (.jump test)
    mark stop
  | .doWhile _ body cond => do
    let outer ← visible
    let again ← newLabel
    let test ← newLabel
    let stop ← newLabel
    mark again
    lowerStmts e returnType body
    restore outer
    mark test
    lowerAs e cond .boolean
    emit (.branchIfTrue again)
    mark stop
  | .ret _ none => emit .ret
  | .ret _ (some value) => do
    if returnType.isValue then lowerAs e value returnType
    else discard (← lowerValue e value)
    emit .ret
  | .block _ body => do
    let outer ← visible
    lowerStmts e returnType body
    restore outer

/-- The code of a list of statements. -/
def lowerStmts (e : Emitter) (returnType : Ty) : List Stmt → Emitting Unit
  | [] => return
  | s :: rest => do
    lowerStmt e returnType s
    lowerStmts e returnType rest

end

/-! ### Programs -/

/-- The declaration of a function as a method without code, and as a host routine if it is
external. -/
def declare (f : FunctionDecl) : EStateM Fault Emitter Unit := fun e =>
  if (e.methods.lookup (f.name, f.arity)).isSome then
    .error (.malformed (.declaredTwice f.name f.arity)) e
  else
    let params := f.params.map (·.ty)
    let (host, e) := match f.external with
      | some package =>
        let id := e.image.hostRoutines.size
        let routine : HostRoutine := { package, name := f.name, params, returnType := f.returnType }
        (some id, { e with
          externals := ((f.name, f.arity), id) :: e.externals
          image.hostRoutines := e.image.hostRoutines.push routine })
      | none => (none, e)
    let method : Method :=
      { name := f.name, params, returnType := f.returnType, locals := #[], code := #[],
        labels := #[], host }
    .ok () { e with
      methods := ((f.name, f.arity), e.image.methods.size) :: e.methods
      image.methods := e.image.methods.push method }

/-- The declarations of a list of functions. -/
def declareAll : List FunctionDecl → EStateM Fault Emitter Unit
  | [] => return
  | f :: rest => do
    declare f
    declareAll rest

/-- The emitter with the string pool of a body, finished or not. -/
def withWork (e : Emitter) (w : Work) : Emitter :=
  { e with strings := w.strings, image.strings := w.state.pool }

/-- The method of a function with a body. -/
def lowerFunction (f : FunctionDecl) : EStateM Fault Emitter Method := fun e =>
  if slotLimit < f.arity then .error (.malformed (.tooManyParameters f.name)) e
  else
    let draft := Draft.new f.name (f.params.map (·.ty)) f.returnType
    let state : State := { draft, pool := e.image.strings, visible := bindParams [] 0 f.params }
    match lowerStmts e f.returnType f.body ⟨state, e.strings⟩ with
    | .error fault w => .error fault (e.withWork w)
    | .ok _ w =>
      match ((w.state.draft.emit .nop).emit .ret).finish with
      | .error fault => .error fault (e.withWork w)
      | .ok method => .ok method (e.withWork w)

/-- The methods of a list of functions, from a place on, where they were declared.  An external
function keeps the method that it was declared with. -/
def lowerBodies : Nat → List FunctionDecl → EStateM Fault Emitter Unit
  | _, [] => return
  | place, f :: rest =>
    if f.isExternal then lowerBodies (place + 1) rest
    else do
      let method ← lowerFunction f
      modify fun (e : Emitter) =>
        { e with image.methods := e.image.methods.setIfInBounds place method }
      lowerBodies (place + 1) rest

/-- The method to start with: `main` without arguments, if it has code. -/
def entry? (e : Emitter) : Option Nat :=
  (e.methods.lookup ("main", 0)).filter fun id => (e.image.methods[id]?.bind (·.host)).isNone

def lowerProgram (p : Program) : EStateM Fault Emitter Image := do
  modify reset
  declareAll p.functions
  lowerBodies 0 p.functions
  modifyGet fun (e : Emitter) =>
    ({ e.image with entry := e.entry? }, { e with image := emptyImage })

/-- The image of a program or a fault, and the emitter as it is left in either case. -/
def lower (e : Emitter) (p : Program) : Except Fault Image × Emitter :=
  match lowerProgram p e with
  | .ok image e => (.ok image, e)
  | .error fault e => (.error fault, e)

end Emitter

end Quill.Lowering
