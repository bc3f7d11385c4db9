import Quill.Proofs.Typing.Flow
import Quill.Scope.Basic
import Quill.Ty.Name

/-! # The typing rules

What it means for an annotated tree to be well typed, without symbol tables, logs and the order in
which a checker works.  The rules look at a list of functions, which call each other by name and
number of arguments, and at the context of a point.

* `ExprOk`: every annotation is the type that the rules give, every variable that is read has
  been assigned, and operands, indices and arguments fit.  Where the type of an operand is
  unknown (`Undefined`, the result of a function declared so), nothing is asked of it.
* `StmtOk`: the expressions of a statement are well typed where they stand, and what is assigned,
  initialized or returned has a fitting type.
* `FunctionOk`, `ProgramOk`: bodies are well typed, and a function with a result returns on every
  path. -/

namespace Quill.Typing

/-! ### Functions -/

/-- What a call needs to know of a function. -/
structure Signature where
  params : List Ty
  returnType : Ty
  isBuiltin : Bool
  deriving DecidableEq, Repr

/-- The function of a program with a name and a number of arguments. -/
def findFunction? (fs : List FunctionDecl) (name : String) (arity : Nat) : Option FunctionDecl :=
  fs.find? fun f => f.name = name ∧ f.arity = arity

/-- The signature of a function of a program. -/
def signatureOf (f : FunctionDecl) : Signature := ⟨f.params.map (·.ty), f.returnType, false⟩

/-- The signature of the built-in function with a name and a number of arguments. -/
def builtinSignature? (name : String) (arity : Nat) : Option Signature :=
  (Scope.builtins.find? fun b => b.1 = name ∧ b.2.1.length = arity).map fun b =>
    ⟨b.2.1.map (·.2), b.2.2, true⟩

/-- The signature of the function that a call names; built-in functions come last. -/
def signature? (fs : List FunctionDecl) (name : String) (arity : Nat) : Option Signature :=
  ((findFunction? fs name arity).map signatureOf).or (builtinSignature? name arity)

/-! ### Expressions -/

/-- The type of an operation: its result if both operands have known types. -/
def Combined (lhs rhs : Ty) (result : Option Ty) (unknown t : Ty) : Prop :=
  if lhs = .undefined ∨ rhs = .undefined then t = unknown else result = some t

/-- The type of an element, given the type of what is indexed and the number of indices. -/
def ElementOk (base : Ty) (count : Nat) (t : Ty) : Prop :=
  match base with
  | .array element rank => rank = count ∧ t = element.toTy
  | .string => count = 1 ∧ t = .string
  | .undefined => t = .undefined
  | _ => False

/-- An index or a dimension. -/
def IndexOk (e : Expr) : Prop := e.ty = .integer ∨ e.ty = .undefined

/-- An argument of a call fits its parameter. -/
def ArgumentOk (name : String) (isBuiltin : Bool) (arg : Expr) (param : Ty) : Prop :=
  arg.ty.assignableTo param = true ∧
    (isBuiltin = true → arg.ty.isValue = true → Scope.builtinAccepts name arg.ty = true)

section

variable (fs : List FunctionDecl) (Γ : Ctx)

/-- The variable of a name has been assigned and has the type. -/
def ReadOk (x : String) (t : Ty) : Prop :=
  ∃ v, Γ.find? x = some v ∧ v.assigned = true ∧ v.ty = t

/-- A call of a function of the program or a built-in function. -/
def CallOk (name : String) (args : List Expr) (t : Ty) : Prop :=
  ∃ sig, signature? fs name args.length = some sig ∧ sig.returnType = t ∧
    List.Forall₂ (ArgumentOk name sig.isBuiltin) args sig.params

mutual

/-- The expression is well typed in a context. -/
def ExprOk : Expr → Prop
  | .literal n v => n.ty = v.ty
  | .name n x => ReadOk Γ x n.ty
  | .arith n op l r =>
    ExprOk l ∧ ExprOk r ∧ Combined l.ty r.ty (op.result? l.ty r.ty) .undefined n.ty
  | .compare n op l r =>
    ExprOk l ∧ ExprOk r ∧ Combined l.ty r.ty (op.result? l.ty r.ty) .boolean n.ty
  | .logic n _ l r =>
    ExprOk l ∧ ExprOk r ∧ Combined l.ty r.ty (LogicOp.result? l.ty r.ty) .boolean n.ty
  | .not n x => ExprOk x ∧ (x.ty = .boolean ∨ x.ty = .undefined) ∧ n.ty = .boolean
  | .index n a is =>
    (∃ base, ReadOk Γ a base ∧ ElementOk base is.length n.ty) ∧ ExprsOk is ∧ ∀ i ∈ is, IndexOk i
  | .call n f args => ExprsOk args ∧ CallOk fs f args n.ty
  | .newArray n e dims =>
    ExprsOk dims ∧ (∀ d ∈ dims, IndexOk d) ∧ (1 ≤ dims.length ∧ dims.length ≤ Ty.maxRank) ∧
      n.ty = .array e dims.length

/-- The expressions are well typed in a context. -/
def ExprsOk : List Expr → Prop
  | [] => True
  | e :: es => ExprOk e ∧ ExprsOk es

end

/-! ### Statements -/

def ConditionOk (e : Expr) : Prop := ExprOk fs Γ e ∧ (e.ty = .boolean ∨ e.ty = .undefined)

end

/-- What is returned fits the result type of the function.  A function without a result may
return an expression without a value. -/
def ReturnOk (returnType t : Ty) : Prop :=
  if returnType = .void then t.isValue = false
  else returnType = .undefined ∨ t.assignableTo returnType = true

section

variable (fs : List FunctionDecl) (returnType : Ty)

mutual

/-- The statement is well typed in a context. -/
def StmtOk (Γ : Ctx) : Stmt → Prop
  | .expr _ e => ExprOk fs Γ e
  | .decl _ x ty init =>
    ty.isValue = true ∧ Γ.isFresh x = true ∧
      ∀ e, init = some e → ExprOk fs Γ e ∧ e.ty.assignableTo ty = true
  | .assign _ x _ value =>
    ExprOk fs Γ value ∧ ∃ v, Γ.find? x = some v ∧ value.ty.assignableTo v.ty = true
  | .assignElement _ a is _ value =>
    ExprOk fs Γ value ∧ ExprsOk fs Γ is ∧ (∀ i ∈ is, IndexOk i) ∧
      ∃ element, ReadOk Γ a (.array element is.length) ∧
        value.ty.assignableTo element.toTy = true
  | .ifThen _ cond body | .while _ cond body => ConditionOk fs Γ cond ∧ StmtsOk ([] :: Γ) body
  | .ifElse _ cond body other =>
    ConditionOk fs Γ cond ∧ StmtsOk ([] :: Γ) body ∧ StmtsOk ([] :: Γ) other
  | .doWhile _ body cond =>
    StmtsOk ([] :: Γ) body ∧ ConditionOk fs (afterAll ([] :: Γ) body).tail cond
  | .ret _ none => returnType = .void
  | .ret _ (some e) => ExprOk fs Γ e ∧ ReturnOk returnType e.ty
  | .block _ body => StmtsOk ([] :: Γ) body

/-- The statements are well typed, each in the context after those before it. -/
def StmtsOk (Γ : Ctx) : List Stmt → Prop
  | [] => True
  | s :: rest => StmtOk Γ s ∧ StmtsOk (after Γ s) rest

end

end

/-! ### Programs -/

/-- The parameters of a function as variables, the last first. -/
def paramBlock (params : List Param) : Block :=
  (params.map fun p => (p.name, { ty := p.ty, assigned := true })).reverse

/-- The body of a function is well typed and returns what it must. -/
def BodyOk (fs : List FunctionDecl) (f : FunctionDecl) : Prop :=
  StmtsOk fs f.returnType [paramBlock f.params] f.body ∧
    (f.returnType = .void ∨ anyReturns f.body = true)

/-- Every parameter has a type with values, and a body, if there is one, is well typed. -/
def FunctionOk (fs : List FunctionDecl) (f : FunctionDecl) : Prop :=
  (∀ p ∈ f.params, p.ty.isValue = true) ∧ (f.isExternal = false → BodyOk fs f)

/-- No two functions have the same name and number of arguments, none has those of a built-in
function, and all are well typed. -/
structure ProgramOk (fs : List FunctionDecl) : Prop where
  distinct : (fs.map fun f => (f.name, f.arity)).Nodup
  user : ∀ f ∈ fs, builtinSignature? f.name f.arity = none
  functions : ∀ f ∈ fs, FunctionOk fs f

/-! ### Small facts -/

theorem exprsOk_iff {fs : List FunctionDecl} {Γ : Ctx} {es : List Expr} :
    ExprsOk fs Γ es ↔ ∀ e ∈ es, ExprOk fs Γ e := by
  induction es with
  | nil => simp [ExprsOk]
  | cons e es ih => rw [ExprsOk, ih, List.forall_mem_cons]

theorem Ctx.Valued.find? {Γ : Ctx} (h : Γ.Valued) {x : String} {v : Var}
    (hx : Γ.find? x = some v) : v.ty.isValue = true := by
  induction Γ with
  | nil => cases hx
  | cons b Γ ih =>
    rw [Ctx.find?_cons, Option.or_eq_some_iff] at hx
    rcases hx with hb | ⟨_, hΓ⟩
    · obtain ⟨l, r, hl, _⟩ := List.lookup_eq_some_iff.mp hb
      exact h b (List.mem_cons_self ..) (x, v) (by simp [hl])
    · exact ih (fun c hc => h c (List.mem_cons_of_mem _ hc)) hΓ

/-- What a well-typed statement declares has a type with values. -/
theorem StmtOk.valued_after {fs : List FunctionDecl} {returnType : Ty} {Γ : Ctx} {s : Stmt}
    (h : StmtOk fs returnType Γ s) (hΓ : Γ.Valued) : (after Γ s).Valued := by
  cases s with
  | decl _ x ty init =>
    obtain ⟨hty, hfresh, _⟩ := h
    cases Γ with
    | nil => exact hΓ
    | cons b Γ =>
      have hnone : b.lookup x = none := by simpa [Ctx.isFresh] using hfresh
      rw [after, Ctx.declare, hnone]
      intro b' hb' p hp
      rcases List.mem_cons.mp hb' with rfl | hb'
      · rcases List.mem_cons.mp hp with rfl | hp
        · exact hty
        · exact hΓ b (List.mem_cons_self ..) p hp
      · exact hΓ b' (List.mem_cons_of_mem _ hb') p hp
  | assign _ x _ _ => exact (Ctx.le_assign x Γ).valued hΓ
  | ifElse _ _ body other =>
    exact (Ctx.le_both (le_tail_afterAll Γ body) (le_tail_afterAll Γ other)).1.valued hΓ
  | doWhile _ body _ | block _ body => exact (le_tail_afterAll Γ body).valued hΓ
  | expr _ _ | assignElement _ _ _ _ _ | ifThen _ _ _ | «while» _ _ _ | ret _ _ => exact hΓ

theorem Ctx.Valued.nil_cons {Γ : Ctx} (h : Γ.Valued) : Ctx.Valued ([] :: Γ) :=
  List.forall_mem_cons.mpr ⟨fun _ hp => absurd hp List.not_mem_nil, h⟩

theorem Combined.eq_boolean {lhs rhs t : Ty} {result : Option Ty}
    (h : Combined lhs rhs result .boolean t) (hr : ∀ t, result = some t → t = .boolean) :
    t = .boolean := by
  unfold Combined at h
  split at h
  · exact h
  · exact hr t h

theorem Combined.of_known {lhs rhs unknown t : Ty} {result : Option Ty}
    (h : Combined lhs rhs result unknown t) (hl : lhs ≠ .undefined) (hr : rhs ≠ .undefined) :
    result = some t := by
  unfold Combined at h
  rwa [if_neg (not_or.mpr ⟨hl, hr⟩)] at h

/-- An operation on operands that have values has a known result. -/
theorem Combined.result {lhs rhs unknown t : Ty} {result : Option Ty}
    (h : Combined lhs rhs result unknown t) (hl : lhs.isValue = true) (hr : rhs.isValue = true) :
    result = some t :=
  h.of_known (by rintro rfl; cases hl) (by rintro rfl; cases hr)

theorem Comparison.eq_boolean_of_result? {op : Comparison} {lhs rhs t : Ty}
    (h : op.result? lhs rhs = some t) : t = .boolean := by
  unfold Comparison.result? at h
  split at h
  · exact (Option.some.inj h).symm
  · split at h
    · exact (Option.some.inj h).symm
    · cases h

theorem LogicOp.eq_boolean_of_result? {lhs rhs t : Ty} (h : LogicOp.result? lhs rhs = some t) :
    t = .boolean := by
  unfold LogicOp.result? at h
  split at h
  · exact (Option.some.inj h).symm
  · cases h

theorem isValue_toTy (e : Element) : e.toTy.isValue = true := by cases e <;> rfl

theorem ElementOk.isValue {base t : Ty} {count : Nat} (h : ElementOk base count t)
    (hb : base.isValue = true) : t.isValue = true := by
  cases base with
  | array element rank =>
    rw [h.2]
    exact isValue_toTy element
  | string =>
    rw [h.2]
    rfl
  | void | undefined => cases hb
  | integer | float | boolean => exact h.elim

end Quill.Typing
