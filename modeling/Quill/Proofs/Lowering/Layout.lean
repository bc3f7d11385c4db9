import Mathlib.Data.List.Forall2
import Quill.Lowering.Program

/-! # The layout of code

Where the code of a tree stands in a finished method, without drafts and the order in which code is
appended.  `ExprCode … e v a b` says that the instructions from position `a` up to `b` are the code
of the expression `e`, and `v` whether it leaves a value; `StmtCode … p s q` says the same of a
statement between two points.  A point knows, besides a position, the variables that are visible
there and the number of local slots that are taken.

Every label of a tree is marked inside the code of the tree, so a layout speaks of the positions
of its branches without looking elsewhere. -/

namespace Quill.Lowering

open Code

/-- The visible variables, the innermost first. -/
abbrev Visible := List (String × Binding)

/-- Where the code of a statement starts or ends. -/
structure Point where
  pos : Nat
  visible : Visible
  /-- The number of local slots that are taken. -/
  slots : Nat

section

variable (m : Method)

/-- The instructions stand one after the other from a position on. -/
def CodeAt (a : Nat) (is : List Instr) : Prop :=
  ∀ k i, is[k]? = some i → m.code[a + k]? = some i

/-- The marker of a label, which is where its branches go. -/
def LabelAt (a label : Nat) : Prop :=
  m.code[a]? = some (.label label) ∧ m.position? label = some a

/-- The conversion of an operand to the type that is required. -/
def Widened (ty target : Ty) (a b : Nat) : Prop :=
  if ty = .integer ∧ target = .float then m.code[a]? = some .intToFloat ∧ b = a + 1 else b = a

/-- The code of an operand: that of its value, and the conversion. -/
def OperandCode (value : Nat → Nat → Prop) (ty target : Ty) (a b : Nat) : Prop :=
  ∃ k, value a k ∧ Widened m ty target k b

/-- The removal of a value that is not used. -/
def DiscardCode (leaves : Bool) (a b : Nat) : Prop :=
  if leaves = true then m.code[a]? = some .pop ∧ b = a + 1 else b = a

/-- The code that pushes zero or one, after a branch. -/
def TruthCode (branch : Nat → Instr) (taken : Int64) (a b : Nat) : Prop :=
  ∃ yes no stop, CodeAt m a [branch yes, .label no, .pushInt (1 - taken), .jump stop, .label yes,
    .pushInt taken, .label stop] ∧ m.position? yes = some (a + 4) ∧
      m.position? stop = some (a + 6) ∧ b = a + 7

end

def LiteralInstr (strings : Array String) (i : Instr) : Literal → Prop
  | .integer v => i = .pushInt v
  | .float bits => i = .pushFloat bits
  | .boolean b => i = .pushInt (if b then 1 else 0)
  | .string s => ∃ id, i = .pushStr id ∧ strings[id]? = some s

/-! ### Expressions -/

section

variable (M : Methods) (m : Method) (strings : Array String)

mutual

/-- The code of an expression. -/
def ExprCode (visible : Visible) : Expr → Bool → Nat → Nat → Prop
  | .literal _ v, leaves, a, b =>
    leaves = true ∧ b = a + 1 ∧ ∃ i, LiteralInstr strings i v ∧ m.code[a]? = some i
  | .name _ x, leaves, a, b =>
    leaves = true ∧ b = a + 1 ∧
      ∃ y, visible.lookup x = some y ∧ m.code[a]? = some y.slot.load
  | .arith n op l r, leaves, a, b =>
    leaves = true ∧ ∃ i k k', arithInstr op n.ty = .ok i ∧
      OperandCode m (ExprCode visible l true) l.ty n.ty a k ∧
      OperandCode m (ExprCode visible r true) r.ty n.ty k k' ∧
      m.code[k']? = some i ∧ b = k' + 1
  | .compare _ op l r, leaves, a, b =>
    leaves = true ∧ ∃ ty between numeric k k',
      comparisonPlan op l.ty r.ty = .ok (ty, between, numeric) ∧
      OperandCode m (ExprCode visible l true) l.ty ty a k ∧
      OperandCode m (ExprCode visible r true) r.ty ty k k' ∧
      CodeAt m k' between ∧
      TruthCode m (.branchCmp op numeric) 1 (k' + between.length) b
  | .logic _ op l r, leaves, a, b =>
    leaves = true ∧ ∃ k k',
      OperandCode m (ExprCode visible l true) l.ty .boolean a k ∧
      OperandCode m (ExprCode visible r true) r.ty .boolean k k' ∧
      m.code[k']? = some (logicInstr op) ∧ TruthCode m .branchIfTrue 1 (k' + 1) b
  | .not _ x, leaves, a, b =>
    leaves = true ∧ ∃ k, OperandCode m (ExprCode visible x true) x.ty .boolean a k ∧
      TruthCode m .branchIfTrue 0 k b
  | .index _ x is, leaves, a, b =>
    leaves = true ∧ ∃ y i k, visible.lookup x = some y ∧ m.code[a]? = some y.slot.load ∧
      ArgsCode visible (List.replicate is.length .integer) is (a + 1) k ∧
      elementInstr y.ty is.length = .ok i ∧ m.code[k]? = some i ∧ b = k + 1
  | .call _ f args, leaves, a, b =>
    ∃ targets code k, callPlan M f (args.map Expr.ty) = .ok (targets, .ok code, leaves) ∧
      ArgsCode visible targets args a k ∧ CodeAt m k code ∧ b = k + code.length
  | .newArray _ e dims, leaves, a, b =>
    leaves = true ∧ ∃ k, ArgsCode visible (List.replicate dims.length .integer) dims a k ∧
      (1 ≤ dims.length ∧ dims.length ≤ Ty.maxRank) ∧
      m.code[k]? = some (.newArray e dims.length) ∧ b = k + 1

/-- The code of a list of expressions, each brought to its type. -/
def ArgsCode (visible : Visible) : List Ty → List Expr → Nat → Nat → Prop
  | t :: ts, e :: es, a, b =>
    ∃ k, OperandCode m (ExprCode visible e true) e.ty t a k ∧ ArgsCode visible ts es k b
  | _, _, a, b => b = a

end

/-- The code of an expression whose value is used where a type is required. -/
def AsCode (visible : Visible) (e : Expr) (target : Ty) (a b : Nat) : Prop :=
  OperandCode m (ExprCode M m strings visible e true) e.ty target a b

/-! ### Statements -/

variable (returnType : Ty)

mutual

/-- The code of a statement. -/
def StmtCode : Point → Stmt → Point → Prop
  | p, .expr _ e, q =>
    ∃ leaves k b, ExprCode M m strings p.visible e leaves p.pos k ∧ DiscardCode m leaves k b ∧
      q = { p with pos := b }
  | p, .decl _ x ty none, q =>
    m.locals[p.slots]? = some ⟨x, ty⟩ ∧
      q = ⟨p.pos, (x, ⟨.local p.slots, ty⟩) :: p.visible, p.slots + 1⟩
  | p, .decl _ x ty (some e), q =>
    ∃ k, AsCode M m strings p.visible e ty p.pos k ∧ m.locals[p.slots]? = some ⟨x, ty⟩ ∧
      m.code[k]? = some (.storeLocal p.slots) ∧
      q = ⟨k + 1, (x, ⟨.local p.slots, ty⟩) :: p.visible, p.slots + 1⟩
  | p, .assign _ x _ value, q =>
    ∃ y k, p.visible.lookup x = some y ∧ AsCode M m strings p.visible value y.ty p.pos k ∧
      m.code[k]? = some y.slot.store ∧ q = { p with pos := k + 1 }
  | p, .assignElement _ x is _ value, q =>
    ∃ y element k k', p.visible.lookup x = some y ∧ y.ty = .array element is.length ∧
      m.code[p.pos]? = some y.slot.load ∧
      ArgsCode M m strings p.visible (List.replicate is.length .integer) is (p.pos + 1) k ∧
      AsCode M m strings p.visible value element.toTy k k' ∧
      m.code[k']? = some (if is.length = 1 then .storeElem else .arraySet is.length) ∧
      q = { p with pos := k' + 1 }
  | p, .ifThen _ cond body, q =>
    ∃ yes stop k e, AsCode M m strings p.visible cond .boolean p.pos k ∧
      m.code[k]? = some (.branchIfTrue yes) ∧ m.code[k + 1]? = some (.jump stop) ∧
      LabelAt m (k + 2) yes ∧ StmtsCode { p with pos := k + 3 } body e ∧ LabelAt m e.pos stop ∧
      q = ⟨e.pos + 1, p.visible, e.slots⟩
  | p, .ifElse _ cond body other, q =>
    ∃ yes stop k e e', AsCode M m strings p.visible cond .boolean p.pos k ∧
      m.code[k]? = some (.branchIfTrue yes) ∧ StmtsCode { p with pos := k + 1 } other e ∧
      m.code[e.pos]? = some (.jump stop) ∧ LabelAt m (e.pos + 1) yes ∧
      StmtsCode ⟨e.pos + 2, p.visible, e.slots⟩ body e' ∧ LabelAt m e'.pos stop ∧
      q = ⟨e'.pos + 1, p.visible, e'.slots⟩
  | p, .while _ cond body, q =>
    ∃ test yes stop k e, LabelAt m p.pos test ∧
      AsCode M m strings p.visible cond .boolean (p.pos + 1) k ∧
      m.code[k]? = some (.branchIfTrue yes) ∧ m.code[k + 1]? = some (.jump stop) ∧
      LabelAt m (k + 2) yes ∧ StmtsCode { p with pos := k + 3 } body e ∧
      m.code[e.pos]? = some (.jump test) ∧ LabelAt m (e.pos + 1) stop ∧
      q = ⟨e.pos + 2, p.visible, e.slots⟩
  | p, .doWhile _ body cond, q =>
    ∃ again test stop e k, LabelAt m p.pos again ∧ StmtsCode { p with pos := p.pos + 1 } body e ∧
      m.code[e.pos]? = some (.label test) ∧
      AsCode M m strings p.visible cond .boolean (e.pos + 1) k ∧
      m.code[k]? = some (.branchIfTrue again) ∧ m.code[k + 1]? = some (.label stop) ∧
      q = ⟨k + 2, p.visible, e.slots⟩
  | p, .ret _ none, q => m.code[p.pos]? = some .ret ∧ q = { p with pos := p.pos + 1 }
  | p, .ret _ (some value), q =>
    if returnType.isValue = true then
      ∃ k, AsCode M m strings p.visible value returnType p.pos k ∧ m.code[k]? = some .ret ∧
        q = { p with pos := k + 1 }
    else
      ∃ leaves k b, ExprCode M m strings p.visible value leaves p.pos k ∧
        DiscardCode m leaves k b ∧ m.code[b]? = some .ret ∧ q = { p with pos := b + 1 }
  | p, .block _ body, q => ∃ e, StmtsCode p body e ∧ q = ⟨e.pos, p.visible, e.slots⟩

/-- The code of a list of statements. -/
def StmtsCode : Point → List Stmt → Point → Prop
  | p, [], q => q = p
  | p, s :: rest, q => ∃ e, StmtCode p s e ∧ StmtsCode e rest q

end

end

/-- The code of a function with a body.  The instructions after the body are reached only where a
function without a result ends without a `return`. -/
def FunctionCode (M : Methods) (strings : Array String) (m : Method) (f : FunctionDecl) : Prop :=
  ∃ e, StmtsCode M m strings f.returnType ⟨0, bindParams [] 0 f.params, 0⟩ f.body e ∧
    m.code[e.pos]? = some .nop ∧ m.code[e.pos + 1]? = some .ret ∧ m.locals.size = e.slots

/-- The method that a function is declared as: a function of the host stands among the host
routines. -/
structure MethodOf (hostRoutines : Array HostRoutine) (m : Method) (f : FunctionDecl) : Prop where
  name : m.name = f.name
  params : m.params = f.params.map (·.ty)
  returnType : m.returnType = f.returnType
  body : f.external = none → m.host = none
  host : ∀ package, f.external = some package → ∃ h, m.host = some h ∧
    hostRoutines[h]? = some ⟨package, f.name, f.params.map (·.ty), f.returnType⟩

/-- The image of a list of functions: methods in their order, with the code of those that have a
body.  Calls are laid out with the declared methods `M`. -/
structure ImageOf (image : Image) (M : Methods) (fs : List FunctionDecl) : Prop where
  declared : List.Forall₂ (MethodOf image.hostRoutines) M.toList fs
  methods : List.Forall₂ (fun m f => MethodOf image.hostRoutines m f ∧
    (f.isExternal = false → FunctionCode M image.strings m f)) image.methods.toList fs
  entry : image.entry = entryOf image.methods

end Quill.Lowering
