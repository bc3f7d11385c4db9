import Quill.Lowering.Expr

/-! # Code of statements

`lowerStmt` appends the code of a statement to a draft.  Statements start and end with an empty
operand stack.  Control structures are built from three labels at most; the body of a block sees
the variables around it, and its own variables are forgotten at its end, while their slots are
never used again. -/

namespace Quill.Lowering

open Code

/-- The state with a new local variable, and the variable's slot. -/
def State.declare (st : State) (name : String) (ty : Ty) : Except Fault (Nat × State) := do
  let (slot, draft) := st.draft.allocLocal name ty
  let slot ← slot
  return (slot, { st with draft, visible := (name, ⟨.local slot, ty⟩) :: st.visible })

/-- The state with the variables that were visible before. -/
def State.restore (st : State) (visible : List (String × Binding)) : State := { st with visible }

/-- The code of an assignment to an element. -/
def lowerElement (methods : Methods) (st : State) (array : String) (indices : List Expr)
    (value : Expr) : Except Fault State := do
  let b ← st.resolve array
  match b.ty with
  | .array element rank =>
    if rank ≠ indices.length then throw (.malformed (.wrongRank array rank indices.length))
    let st ← lowerAll methods (st.emit b.slot.load)
      (List.replicate indices.length .integer) indices
    let st ← lowerAs methods st value element.toTy
    return st.emit (if rank = 1 then .storeElem else .arraySet rank)
  | ty => throw (.unsupportedOperand "element assignment" ty)

mutual

/-- The code of a statement in a function with a result type. -/
def lowerStmt (methods : Methods) (returnType : Ty) (st : State) : Stmt → Except Fault State
  | .expr _ e => do
    return discarded (← lowerValue methods st e)
  | .decl _ name ty none => do
    let (_, st) ← st.declare name ty
    return st
  | .decl _ name ty (some init) => do
    let st ← lowerAs methods st init ty
    let (slot, st) ← st.declare name ty
    return st.emit (.storeLocal slot)
  | .assign _ name _ value => do
    let b ← st.resolve name
    let st ← lowerAs methods st value b.ty
    return st.emit b.slot.store
  | .assignElement _ array indices _ value => lowerElement methods st array indices value
  | .ifThen _ cond body => do
    let visible := st.visible
    let (yes, st) := st.newLabel
    let (stop, st) := st.newLabel
    let st ← lowerAs methods st cond .boolean
    let st := ((st.emit (.branchIfTrue yes)).emit (.jump stop)).mark yes
    let st ← lowerStmts methods returnType st body
    return (st.restore visible).mark stop
  | .ifElse _ cond body other => do
    let visible := st.visible
    let (yes, st) := st.newLabel
    let (stop, st) := st.newLabel
    let st ← lowerAs methods st cond .boolean
    let st ← lowerStmts methods returnType (st.emit (.branchIfTrue yes)) other
    let st := ((st.restore visible).emit (.jump stop)).mark yes
    let st ← lowerStmts methods returnType st body
    return (st.restore visible).mark stop
  | .while _ cond body => do
    let visible := st.visible
    let (test, st) := st.newLabel
    let (yes, st) := st.newLabel
    let (stop, st) := st.newLabel
    let st ← lowerAs methods (st.mark test) cond .boolean
    let st := ((st.emit (.branchIfTrue yes)).emit (.jump stop)).mark yes
    let st ← lowerStmts methods returnType st body
    return ((st.restore visible).emit (.jump test)).mark stop
  | .doWhile _ body cond => do
    let visible := st.visible
    let (again, st) := st.newLabel
    let (test, st) := st.newLabel
    let (stop, st) := st.newLabel
    let st ← lowerStmts methods returnType (st.mark again) body
    let st ← lowerAs methods ((st.restore visible).mark test) cond .boolean
    return (st.emit (.branchIfTrue again)).mark stop
  | .ret _ none => .ok (st.emit .ret)
  | .ret _ (some value) => do
    if returnType.isValue then
      let st ← lowerAs methods st value returnType
      return st.emit .ret
    else
      return (discarded (← lowerValue methods st value)).emit .ret
  | .block _ body => do
    let visible := st.visible
    let st ← lowerStmts methods returnType st body
    return st.restore visible

/-- The code of a list of statements. -/
def lowerStmts (methods : Methods) (returnType : Ty) (st : State) :
    List Stmt → Except Fault State
  | [] => .ok st
  | s :: rest => do
    let st ← lowerStmt methods returnType st s
    lowerStmts methods returnType st rest

end

end Quill.Lowering
