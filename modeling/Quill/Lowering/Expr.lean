import Quill.Lowering.Draft
import Quill.Lowering.Template
import Quill.Tree.Basic

/-! # Code of expressions

`lowerValue` appends the code of an expression to a draft; when the code has run, the value of
the expression is on top of the operand stack, unless the expression is a call without a result.
An integer that stands where a floating-point number is required is converted there and only
there.

Comparisons and logical operators branch and then push zero or one.  Both operands of `and` and
`or` are evaluated; the truth of `a and b` is that of their product, the truth of `a or b` that
of their sum. -/

namespace Quill.Lowering

open Code

inductive Slot where
  | arg (slot : Nat)
  | local (slot : Nat)
  deriving DecidableEq, Repr

structure Binding where
  slot : Slot
  ty : Ty
  deriving DecidableEq, Repr

/-- The instruction that reads a variable. -/
def Slot.load : Slot → Instr
  | .arg s => .loadArg s
  | .local s => .loadLocal s

/-- The instruction that assigns a variable. -/
def Slot.store : Slot → Instr
  | .arg s => .storeArg s
  | .local s => .storeLocal s

/-- The state of lowering: the method under construction, the string pool of the whole image, and
the visible variables, the innermost first. -/
structure State where
  draft : Draft
  pool : Array String
  visible : List (String × Binding)
  deriving DecidableEq, Repr, Inhabited

namespace State

/-- The state with one more instruction. -/
def emit (st : State) (i : Instr) : State := { st with draft := st.draft.emit i }

/-- The state with a label marked at the end of the code. -/
def mark (st : State) (label : Nat) : State := { st with draft := st.draft.mark label }

/-- The state with a new label, and the label. -/
def newLabel (st : State) : Nat × State :=
  let (label, draft) := st.draft.newLabel
  (label, { st with draft })

def resolve (st : State) (name : String) : Except Fault Binding :=
  match st.visible.lookup name with
  | some b => .ok b
  | none => .error (.unresolvedSlot name)

/-- The place of a text in the string pool, where each text stands once. -/
def intern (st : State) (s : String) : Nat × State :=
  match st.pool.findIdx? (· = s) with
  | some id => (id, st)
  | none => (st.pool.size, { st with pool := st.pool.push s })

def literal (st : State) : Literal → State
  | .integer v => st.emit (.pushInt v)
  | .float bits => st.emit (.pushFloat bits)
  | .boolean b => st.emit (.pushInt (if b then 1 else 0))
  | .string s =>
    let (id, st) := st.intern s
    st.emit (.pushStr id)

/-- Code that pushes zero or one: `taken` if the branch is taken, the other value if not. -/
def pushTruth (st : State) (branch : Nat → Instr) (taken : Int64) : State :=
  let (yes, st) := st.newLabel
  let (no, st) := st.newLabel
  let (stop, st) := st.newLabel
  let st := (st.emit (branch yes)).mark no
  let st := (st.emit (.pushInt (1 - taken))).emit (.jump stop)
  let st := (st.mark yes).emit (.pushInt taken)
  st.mark stop

end State

/-- The state after code whose value is used; the flag tells whether there is a value. -/
def consumed (r : Bool × State) : Except Fault State :=
  if r.1 then .ok r.2 else .error (.malformed .noValue)

/-- The state after code whose value is used where a type is required. -/
def operand (ty target : Ty) (r : Bool × State) : Except Fault State := do
  let st ← consumed r
  return if ty = .integer ∧ target = .float then st.emit .intToFloat else st

/-- The state after code whose value is not used. -/
def discarded (r : Bool × State) : State := if r.1 then r.2.emit .pop else r.2

/-- How an arithmetic operation is done, given the type of its result. -/
def arithInstr (op : ArithOp) (result : Ty) : Except Fault Instr :=
  if result = .string ∧ op = .add then .ok .concat
  else match result.numeric? with
    | some n => .ok (.arith op n)
    | none => .error (.unsupportedOperand op.symbol result)

/-- How two operands are compared: the type they are brought to, the code between the operands
and the branch, and the type of the branch. -/
def comparisonPlan (op : Comparison) (lhs rhs : Ty) : Except Fault (Ty × List Instr × Numeric) :=
  match lhs.numeric?, rhs.numeric? with
  | some l, some r => .ok ((l.widest r).toTy, [], l.widest r)
  | _, _ =>
    if lhs = .string ∧ rhs = .string ∧ op.isEquality then
      .ok (.string, [.strEq, .pushInt 1], .integer)
    else if lhs = .boolean ∧ rhs = .boolean ∧ op.isEquality then .ok (.boolean, [], .integer)
    else .error (.unsupportedOperand op.symbol lhs)

/-- The arithmetic operation of a logical operator on zeros and ones. -/
def logicInstr : LogicOp → Instr
  | .and => .arith .mul .integer
  | .or => .arith .add .integer

/-- The instruction that reads an element, given the type of what is indexed. -/
def elementInstr (ty : Ty) (count : Nat) : Except Fault Instr :=
  match ty with
  | .array _ rank =>
    if rank = count then .ok (if rank = 1 then .loadElem else .arrayGet rank)
    else .error (.unsupportedOperand "[]" ty)
  | _ =>
    if ty = .string ∧ count = 1 then .ok (.intrinsic .charAt)
    else .error (.unsupportedOperand "[]" ty)

/-- The state with more instructions. -/
def State.emitAll (st : State) (is : List Instr) : State := is.foldl State.emit st

/-- The methods that calls can name, before their code is known. -/
abbrev Methods := Array Method

/-- How a function is called: the types its arguments are brought to, the code after them, and
whether there is a value.  Methods of the program come before built-in functions. -/
def callPlan (methods : Methods) (name : String) (args : List Ty) :
    Except Fault (List Ty × Except Fault (List Instr) × Bool) :=
  match methods.findIdx? (·.hasSignature name args.length) with
  | some id =>
    match methods[id]? with
    | some m =>
      let code := match m.host with
        | some h => .ok [.callHost h]
        | none =>
          if args.length ≤ callLimit then .ok [.call id args.length]
          else .error (.malformed (.tooManyArguments name))
      .ok (m.params, code, m.returnsValue)
    | none => .error (.unresolvedFunction name args.length)
  | none =>
    match template? name args with
    | none => .error (.unresolvedFunction name args.length)
    | some (.error fault) => .error fault
    | some (.ok code) => .ok (args, .ok code, builtinReturnsValue name)

mutual

/-- The code of an expression, and whether it leaves a value. -/
def lowerValue (methods : Methods) (st : State) : Expr → Except Fault (Bool × State)
  | .literal _ v => .ok (true, st.literal v)
  | .name _ x => do
    let b ← st.resolve x
    return (true, st.emit b.slot.load)
  | .arith n op l r => do
    let i ← arithInstr op n.ty
    let st ← operand l.ty n.ty (← lowerValue methods st l)
    let st ← operand r.ty n.ty (← lowerValue methods st r)
    return (true, st.emit i)
  | .compare _ op l r => do
    let (ty, between, numeric) ← comparisonPlan op l.ty r.ty
    let st ← operand l.ty ty (← lowerValue methods st l)
    let st ← operand r.ty ty (← lowerValue methods st r)
    return (true, (st.emitAll between).pushTruth (.branchCmp op numeric) 1)
  | .logic _ op l r => do
    let st ← operand l.ty .boolean (← lowerValue methods st l)
    let st ← operand r.ty .boolean (← lowerValue methods st r)
    return (true, (st.emit (logicInstr op)).pushTruth .branchIfTrue 1)
  | .not _ x => do
    let st ← operand x.ty .boolean (← lowerValue methods st x)
    return (true, st.pushTruth .branchIfTrue 0)
  | .index _ a is => do
    let b ← st.resolve a
    let st ← lowerAll methods (st.emit b.slot.load) (List.replicate is.length .integer) is
    let i ← elementInstr b.ty is.length
    return (true, st.emit i)
  | .call _ f args => do
    let (targets, code, returns) ← callPlan methods f (args.map Expr.ty)
    let st ← lowerAll methods st targets args
    return (returns, st.emitAll (← code))
  | .newArray _ e dims => do
    let st ← lowerAll methods st (List.replicate dims.length .integer) dims
    if 1 ≤ dims.length ∧ dims.length ≤ Ty.maxRank then
      return (true, st.emit (.newArray e dims.length))
    else throw (.malformed (.arrayRank dims.length))

/-- The code of a list of expressions, each brought to its type. -/
def lowerAll (methods : Methods) (st : State) : List Ty → List Expr → Except Fault State
  | t :: ts, e :: es => do
    let st ← operand e.ty t (← lowerValue methods st e)
    lowerAll methods st ts es
  | _, _ => .ok st

end

/-- The code of an expression whose value is used where a type is required. -/
def lowerAs (methods : Methods) (st : State) (e : Expr) (target : Ty) : Except Fault State := do
  operand e.ty target (← lowerValue methods st e)

end Quill.Lowering
