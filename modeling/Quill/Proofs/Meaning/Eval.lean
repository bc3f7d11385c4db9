import Quill.Proofs.Machine.Effect
import Quill.Proofs.Typing.Rules

/-! # The meaning of program trees

What an annotated tree means, without code, labels, slots and an operand stack: the tree itself is
evaluated, from left to right, with the variables of each block by name.

* Both operands of `and` and `or` are always evaluated.
* An integer becomes a floating-point number where the context asks for one and nowhere else: an
  operand of an operation on floating-point numbers, an initializer, an assigned value, an
  argument, a result.
* Arrays are shared: a variable holds a reference.  An assignment to an element evaluates the
  array, the indices and the value before it looks at the bounds.
* A block sees the variables around it; its own may hide them and are forgotten at its end.

Loops and calls may not end, so an evaluation is given fuel: `callAt n` makes calls that are nested
at most `n` deep and whose loops have fewer than `n` rounds.  A program ends if some fuel is
enough. -/

namespace Quill.Meaning

open Code Machine Typing

/-- Why an evaluation stops without a result. -/
inductive Stop where
  | fault (e : Fault)
  | outOfFuel
  /-- The tree has no meaning at this point: the checker would have reported it. -/
  | stuck
  deriving DecidableEq, Repr

/-- An evaluation changes the world, and gives a result or stops. -/
abbrev Eval := EStateM Stop World

def lift (r : Except Fault α) : Eval α :=
  match r with
  | .ok a => pure a
  | .error e => throw (.fault e)

def required (r : Option α) : Eval α :=
  match r with
  | some a => pure a
  | none => throw .stuck

/-! ### Variables -/

/-- A variable: its declared type, and its value once it has one. -/
structure Cell where
  ty : Ty
  value : Option Value
  deriving Repr, Inhabited

/-- The variables around a point, the newest first; those of a block stand before those around
it. -/
abbrev Env := List (String × Cell)

/-- A new value for the variable that a name means, which is the newest of the name. -/
def Env.assign (x : String) (v : Value) : Env → Env
  | [] => []
  | (y, c) :: rest =>
    if x == y then (y, { c with value := some v }) :: rest else (y, c) :: Env.assign x v rest

def read (env : Env) (x : String) : Eval Value := required ((env.lookup x).bind (·.value))

/-- The type of the elements of an array variable. -/
def elementTy (env : Env) (x : String) : Eval Ty :=
  match (env.lookup x).map Cell.ty with
  | some (.array element _) => return element.toTy
  | _ => throw .stuck

/-! ### Values -/

/-- A value where a type is required. -/
def widen : Ty → Value → Value
  | .float, .int n => .float n.toFloat
  | _, v => v

/-- The value of an expression where a type is required. -/
def valueAs (target : Ty) (v : Option Value) : Eval Value := do return widen target (← required v)

def ofLiteral : Literal → Value
  | .integer n => .int n
  | .float bits => .float (Float.ofBits bits)
  | .boolean b => .ofBool b
  | .string s => .str s

/-- Arithmetic on two values of one kind. -/
def arithmetic (op : ArithOp) : Value → Value → Eval Value
  | .int a, .int b => do return .int (← lift (arithInt op a b))
  | .float a, .float b => return .float (arithFloat op a b)
  | .str a, .str b => if op = .add then return .str (a ++ b) else throw .stuck
  | _, _ => throw .stuck

/-- The type in which two operands are compared. -/
def comparedTy (l r : Ty) : Ty := if l = .float ∨ r = .float then .float else l

/-- The comparison of two values of one kind; texts are only compared for equality. -/
def comparison (op : Comparison) : Value → Value → Eval Bool
  | .int a, .int b => return holdsInt op a b
  | .float a, .float b => return holdsFloat op a b
  | .str a, .str b =>
    match op with
    | .eq => return a == b
    | .ne => return a != b
    | _ => throw .stuck
  | _, _ => throw .stuck

def truth : Value → Eval Bool
  | .int n => return n ≠ 0
  | _ => throw .stuck

def connective : LogicOp → Bool → Bool → Bool
  | .and, a, b => a && b
  | .or, a, b => a || b

def integers : List Value → Eval (List Int64)
  | [] => return []
  | .int n :: vs => do return n :: (← integers vs)
  | _ :: _ => throw .stuck

/-! ### Arrays and texts -/

/-- The array that a reference means. -/
def arrayAt (ref : Ref) : Eval ArrayValue := do lift ((← get).arrays.find ref)

/-- The element of an array, or the character of a text. -/
def elementOf (v : Value) (indices : List Int64) : Eval Value :=
  match v, indices with
  | .array ref, is => do lift ((← arrayAt ref).get is)
  | .str s, [i] => do return .str (← lift (charAt s i))
  | _, _ => throw .stuck

/-- The assignment to an element of an array. -/
def setElement (v : Value) (indices : List Int64) (u : Value) : Eval Unit :=
  match v with
  | .array ref => do
    let i ← lift ((← arrayAt ref).place indices)
    modify fun w => { w with arrays := w.arrays.replace ref i u }
  | _ => throw .stuck

def allocate (e : Element) (dims : List Int64) : Eval Value := do
  let a ← lift (ArrayValue.new e dims)
  let w ← get
  set { w with arrays := w.arrays.push a }
  return .array (.made w.arrays.size)

/-! ### Functions that are given -/

def write (f : Console → Except String Console) : Eval Unit := do
  match f (← get).console with
  | .ok console => modify fun w => { w with console }
  | .error message => throw (.fault (.console message))

/-- The next line of the console, empty at the end of the input. -/
def readLine : Eval String := do
  match (← get).console.readLine with
  | .ok (line, console) => do
    modify fun w => { w with console }
    return line.getD ""
  | .error message => throw (.fault (.console message))

def textOf : Ty → Value → Eval String
  | .integer, .int n => return Decimal.ofInt n.toInt
  | .boolean, .int n => return if n = 0 then "false" else "true"
  | .float, .float x => return floatText x
  | .string, .str s => return s
  | _, _ => throw .stuck

/-- The length of a text or of an array. -/
def lengthOf : Value → Eval Value
  | .str s => return lengthValue s.length
  | .array ref => do return lengthValue (← arrayAt ref).length
  | _ => throw .stuck

/-- A built-in function, given the types of its arguments and the arguments. -/
def builtin (name : String) (tys : List Ty) (args : List Value) : Eval (Option Value) :=
  match tys, args with
  | [], [] => if name = "readln" then do return some (.str (← readLine)) else throw .stuck
  | [t], [v] =>
    if name = "tostr" then do return some (.str (← textOf t v))
    else if name = "length" then do return some (← lengthOf v)
    else match v with
      | .str s =>
        if name = "print" then do
          write (·.print s)
          return none
        else if name = "println" then do
          write (·.printLine s)
          return none
        else if name = "toint" then do return some (.int (← lift (parseInt s)))
        else if name = "tofloat" then do return some (.float (← lift (parseFloat s)))
        else throw .stuck
      | _ => throw .stuck
  | _, _ => throw .stuck

def external (hosts : Hosts) (r : HostRoutine) (args : List Value) : Eval (Option Value) := do
  match hosts.find? r with
  | none => throw (.fault (.unknownHostRoutine r.qualifiedName))
  | some action => do
    let w ← get
    let (result, arrays) ← lift (action args w.arrays)
    set { w with arrays }
    return result

/-- The routine of the host that a function stands for. -/
def routineOf (package : String) (f : FunctionDecl) : HostRoutine :=
  ⟨package, f.name, f.params.map (·.ty), f.returnType⟩

/-- What calls of the functions of the program do. -/
abbrev Calls := FunctionDecl → List Value → Eval (Option Value)

/-! ### Expressions -/

section

variable (fs : List FunctionDecl) (hosts : Hosts) (call : Calls)

mutual

/-- The value of an expression; a call may have none. -/
@[simp] def evalExpr (env : Env) : Expr → Eval (Option Value)
  | .literal _ v => return some (ofLiteral v)
  | .name _ x => do return some (← read env x)
  | .arith n op l r => do
    let a ← valueAs n.ty (← evalExpr env l)
    let b ← valueAs n.ty (← evalExpr env r)
    return some (← arithmetic op a b)
  | .compare _ op l r => do
    let a ← valueAs (comparedTy l.ty r.ty) (← evalExpr env l)
    let b ← valueAs (comparedTy l.ty r.ty) (← evalExpr env r)
    return some (.ofBool (← comparison op a b))
  | .logic _ op l r => do
    let a ← valueAs .boolean (← evalExpr env l)
    let b ← valueAs .boolean (← evalExpr env r)
    return some (.ofBool (connective op (← truth a) (← truth b)))
  | .not _ x => do
    let a ← valueAs .boolean (← evalExpr env x)
    return some (.ofBool (!(← truth a)))
  | .index _ x is => do
    let v ← read env x
    let vs ← evalAll env (List.replicate is.length .integer) is
    return some (← elementOf v (← integers vs))
  | .call _ f args =>
    match findFunction? fs f args.length with
    | some g => do
      let vs ← evalAll env (g.params.map (·.ty)) args
      match g.external with
      | some package => external hosts (routineOf package g) vs
      | none => call g vs
    | none => do
      let vs ← evalAll env (args.map Expr.ty) args
      builtin f (args.map Expr.ty) vs
  | .newArray _ e dims => do
    let vs ← evalAll env (List.replicate dims.length .integer) dims
    return some (← allocate e (← integers vs))

/-- The values of a list of expressions, each where a type is required. -/
def evalAll (env : Env) : List Ty → List Expr → Eval (List Value)
  | t :: ts, e :: es => do
    let v ← valueAs t (← evalExpr env e)
    return v :: (← evalAll env ts es)
  | _, _ => return []

end

/-- The value of an expression where a type is required. -/
def evalAs (env : Env) (target : Ty) (e : Expr) : Eval Value := do
  valueAs target (← evalExpr fs hosts call env e)

def evalCondition (env : Env) (e : Expr) : Eval Bool := do
  truth (← evalAs fs hosts call env .boolean e)

end

/-! ### Statements -/

/-- How a statement ends: the next one follows, or the function returns. -/
inductive Flow where
  | next (env : Env)
  | returned (result : Option Value)

/-- The end of a block: of the variables those are left that were there before it. -/
def Flow.leaveBlock (before : Env) : Flow → Flow
  | .next env => .next (env.drop (env.length - before.length))
  | .returned result => .returned result

inductive Round where
  | again (env : Env)
  | done (flow : Flow)

/-- Rounds of a loop, fewer than the fuel. -/
def loop (round : Env → Eval Round) : Nat → Env → Eval Flow
  | 0, _ => throw .outOfFuel
  | n + 1, env => do
    match ← round env with
    | .again env => loop round n env
    | .done flow => return flow

section

variable (fs : List FunctionDecl) (hosts : Hosts) (call : Calls) (fuel : Nat) (returnType : Ty)

/-- The round of a `while`: the body, if the condition holds. -/
def whileRound (cond : Env → Eval Bool) (body : Env → Eval Flow) (env : Env) : Eval Round := do
  if ← cond env then
    match ← body env with
    | .next env => return .again env
    | .returned result => return .done (.returned result)
  else return .done (.next env)

/-- The round of a `do … while`: the body, and then the condition. -/
def doRound (cond : Env → Eval Bool) (body : Env → Eval Flow) (env : Env) : Eval Round := do
  match ← body env with
  | .next env => if ← cond env then return .again env else return .done (.next env)
  | .returned result => return .done (.returned result)

mutual

/-- What a statement does. -/
@[simp] def exec (env : Env) : Stmt → Eval Flow
  | .expr _ e => do
    let _ ← evalExpr fs hosts call env e
    return .next env
  | .decl _ x ty none => return .next ((x, ⟨ty, none⟩) :: env)
  | .decl _ x ty (some e) => do
    let v ← evalAs fs hosts call env ty e
    return .next ((x, ⟨ty, some v⟩) :: env)
  | .assign _ x _ e => do
    let c ← required (env.lookup x)
    let v ← evalAs fs hosts call env c.ty e
    return .next (env.assign x v)
  | .assignElement _ x is _ e => do
    let v ← read env x
    let vs ← evalAll fs hosts call env (List.replicate is.length .integer) is
    let u ← evalAs fs hosts call env (← elementTy env x) e
    setElement v (← integers vs) u
    return .next env
  | .ifThen _ cond body => do
    if ← evalCondition fs hosts call env cond then
      return (← execAll env body).leaveBlock env
    else return .next env
  | .ifElse _ cond body other => do
    if ← evalCondition fs hosts call env cond then
      return (← execAll env body).leaveBlock env
    else return (← execAll env other).leaveBlock env
  | .while _ cond body =>
    loop (whileRound (fun env => evalCondition fs hosts call env cond)
      fun env => do return (← execAll env body).leaveBlock env) fuel env
  | .doWhile _ body cond =>
    loop (doRound (fun env => evalCondition fs hosts call env cond)
      fun env => do return (← execAll env body).leaveBlock env) fuel env
  | .ret _ none => return .returned none
  | .ret _ (some e) => do
    if returnType.isValue then
      return .returned (some (← evalAs fs hosts call env returnType e))
    else
      let _ ← evalExpr fs hosts call env e
      return .returned none
  | .block _ body => do return (← execAll env body).leaveBlock env

/-- What a list of statements does. -/
def execAll (env : Env) : List Stmt → Eval Flow
  | [] => return .next env
  | s :: rest => do
    match ← exec env s with
    | .next env => execAll env rest
    | .returned result => return .returned result

end

end

/-! ### Programs -/

/-- The parameters of a function as variables, the last first. -/
def bindArgs (params : List Param) (args : List Value) : Env :=
  (List.zipWith (fun p v => (p.name, ⟨p.ty, some v⟩)) params args).reverse

section

variable (fs : List FunctionDecl) (hosts : Hosts)

def runBody (call : Calls) (fuel : Nat) (f : FunctionDecl) (args : List Value) :
    Eval (Option Value) := do
  match ← execAll fs hosts call fuel f.returnType (bindArgs f.params args) f.body with
  | .next _ => return none
  | .returned result => return result

/-- Calls nested at most so deep, with fewer rounds of each loop. -/
def callAt : Nat → Calls
  | 0 => fun _ _ => throw .outOfFuel
  | n + 1 => runBody fs hosts (callAt n) n

/-- How an evaluation has ended, and the world after it; `none` if it has not. -/
def outcomeOf : EStateM.Result Stop World (Option Value) → Option (Outcome × World)
  | .ok result w => some (.ok result, w)
  | .error (.fault e) w => some (.error e, w)
  | .error .outOfFuel _ | .error .stuck _ => none

/-- The outcome of a program and the world after it; `none` if the fuel is not enough. -/
def evalProgram (console : Console) (fuel : Nat) : Option (Outcome × World) :=
  match findFunction? fs "main" 0 with
  | none => none
  | some main => outcomeOf (callAt fs hosts fuel main [] ⟨#[], console⟩)

end

end Quill.Meaning
