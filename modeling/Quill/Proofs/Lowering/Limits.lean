import Quill.Proofs.Lowering.Operands
import Quill.Proofs.Lowering.Visible

/-! # Where lowering can fail: expressions

Lowering has limits on the numbers of arguments and local variables, and many more faults for trees
that no checker has seen.  `FailsOnly P x` says that `x` can only fail with a fault of `P`; here it
is shown that the code of a well-typed expression of a program in which every function declares
a known result type can only fail at a call with too many arguments. -/

namespace Quill

/-! ### What trees hold -/

mutual

/-- The calls in an expression: the name and the number of arguments of each. -/
def Expr.calls : Expr → List (String × Nat)
  | .literal _ _ | .name _ _ => []
  | .arith _ _ l r | .compare _ _ l r | .logic _ _ l r => l.calls ++ r.calls
  | .not _ x => x.calls
  | .index _ _ es | .newArray _ _ es => exprsCalls es
  | .call _ f args => (f, args.length) :: exprsCalls args

/-- The calls in a list of expressions. -/
def exprsCalls : List Expr → List (String × Nat)
  | [] => []
  | e :: es => e.calls ++ exprsCalls es

end

mutual

def Stmt.calls : Stmt → List (String × Nat)
  | .expr _ e => e.calls
  | .decl _ _ _ none | .ret _ none => []
  | .decl _ _ _ (some e) | .assign _ _ _ e | .ret _ (some e) => e.calls
  | .assignElement _ _ is _ e => exprsCalls is ++ e.calls
  | .ifThen _ cond body | .while _ cond body | .doWhile _ body cond =>
    cond.calls ++ stmtsCalls body
  | .ifElse _ cond body other => cond.calls ++ (stmtsCalls body ++ stmtsCalls other)
  | .block _ body => stmtsCalls body

/-- The calls in a list of statements. -/
def stmtsCalls : List Stmt → List (String × Nat)
  | [] => []
  | s :: rest => s.calls ++ stmtsCalls rest

end

mutual

/-- The number of variables that a statement declares, in itself and in its blocks. -/
def Stmt.declarations : Stmt → Nat
  | .decl _ _ _ _ => 1
  | .ifThen _ _ body | .while _ _ body | .doWhile _ body _ | .block _ body => stmtsDeclarations body
  | .ifElse _ _ body other => stmtsDeclarations body + stmtsDeclarations other
  | .expr _ _ | .assign _ _ _ _ | .assignElement _ _ _ _ _ | .ret _ _ => 0

/-- The number of variables that a list of statements declares. -/
def stmtsDeclarations : List Stmt → Nat
  | [] => 0
  | s :: rest => s.declarations + stmtsDeclarations rest

end

end Quill

namespace Quill.Lowering

open Code Typing

/-- If the computation fails, then with such a fault. -/
def FailsOnly (P : Fault → Prop) (x : Except Fault α) : Prop := ∀ e, x = .error e → P e

/-- One of the calls has more arguments than a call can have, and is not one of the host. -/
def CallFault (fs : List FunctionDecl) (calls : List (String × Nat)) (e : Fault) : Prop :=
  ∃ name argc f, (name, argc) ∈ calls ∧ callLimit < argc ∧
    findFunction? fs name argc = some f ∧ f.isExternal = false ∧
    e = .malformed (.tooManyArguments name)

section

variable {P P' : Fault → Prop}

theorem failsOnly_ok (a : α) : FailsOnly P (.ok a : Except Fault α) := fun _ h => nomatch h

theorem FailsOnly.bind {x : Except Fault α} {g : α → Except Fault β} (hx : FailsOnly P x)
    (hg : ∀ a, x = .ok a → FailsOnly P (g a)) : FailsOnly P (x >>= g) := by
  cases x with
  | error e =>
    intro e' h
    cases h
    exact hx e rfl
  | ok a => exact hg a rfl

theorem FailsOnly.imp {x : Except Fault α} (h : FailsOnly P x) (hP : ∀ e, P e → P' e) :
    FailsOnly P' x := fun e he => hP e (h e he)

theorem CallFault.mono {fs : List FunctionDecl} {cs cs' : List (String × Nat)} {e : Fault}
    (h : CallFault fs cs e) (hsub : ∀ c ∈ cs, c ∈ cs') : CallFault fs cs' e := by
  obtain ⟨name, argc, f, hmem, hrest⟩ := h
  exact ⟨name, argc, f, hsub _ hmem, hrest⟩

/-- Every state can be taken for finished, so what is known of finished code is known of it. -/
theorem exists_final (st : State) : ∃ m strings, Final st m strings := by
  refine ⟨⟨"", [], .void, st.draft.locals, st.draft.code,
    st.draft.labels.map (fun l => l.getD 0), none⟩, st.pool, Within.refl _, Within.refl _,
    Within.refl _, fun l p hl => ?_⟩
  show (st.draft.labels.map fun l => l.getD 0)[l]? = some p
  rw [Array.getElem?_map, hl]
  rfl

end

/-! ### Types of well-typed expressions -/

section

variable {fs : List FunctionDecl} {Γ : Ctx}

/-- What can be given where a value is required is a value, unless its type is unknown. -/
theorem isValue_of_assignableTo {t target : Ty} (ht : t ≠ .undefined)
    (hv : target.isValue = true ∨ target = .undefined) (h : t.assignableTo target = true) :
    t.isValue = true := by
  rcases hv with hv | rfl
  · cases t with
    | void => cases target <;> simp_all [Ty.assignableTo, Ty.numeric?, Ty.isValue]
    | undefined => exact absurd rfl ht
    | _ => rfl
  · unfold Ty.assignableTo at h
    rwa [if_neg ht, if_pos rfl] at h

theorem signature?_spec {name : String} {argc : Nat} {sig : Signature}
    (hr : ∀ f ∈ fs, f.returnType ≠ .undefined)
    (hp : ∀ f ∈ fs, ∀ x ∈ f.params, x.ty.isValue = true)
    (h : signature? fs name argc = some sig) :
    sig.returnType ≠ .undefined ∧ ∀ t ∈ sig.params, t.isValue = true ∨ t = .undefined := by
  unfold signature? at h
  rcases Option.or_eq_some_iff.mp h with hf | ⟨_, hb⟩
  · obtain ⟨f, hfind, rfl⟩ := Option.map_eq_some_iff.mp hf
    have hmem : f ∈ fs := List.mem_of_find?_eq_some hfind
    refine ⟨hr f hmem, fun t ht => ?_⟩
    obtain ⟨x, hx, rfl⟩ := List.mem_map.mp ht
    exact .inl (hp f hmem x hx)
  · rcases builtinSignature?_cases hb with ⟨_, rfl⟩ | ⟨_, rfl⟩ | ⟨_, rfl⟩ | ⟨_, rfl⟩ | ⟨_, rfl⟩ |
      ⟨_, rfl⟩ | ⟨_, rfl⟩ <;> simp [Ty.isValue]

/-- In a program where every result type is known, so is the type of every expression. -/
theorem ExprOk.ty_ne_undefined (hr : ∀ f ∈ fs, f.returnType ≠ .undefined)
    (hp : ∀ f ∈ fs, ∀ x ∈ f.params, x.ty.isValue = true) (hΓ : Γ.Valued) :
    ∀ {e : Expr}, ExprOk fs Γ e → e.ty ≠ .undefined
  | .literal n v, h => by
    rw [show (Expr.literal n v).ty = v.ty from h]
    cases v <;> simp [Literal.ty]
  | .name n x, h => by
    obtain ⟨v, hv, _, hty⟩ := h
    intro hu
    have hvalue := hΓ.find? hv
    rw [hty, show n.ty = .undefined from hu] at hvalue
    cases hvalue
  | .arith n op l r, h => by
    obtain ⟨hl, hr', hres⟩ := h
    have hres := hres.of_known (ExprOk.ty_ne_undefined hr hp hΓ hl)
      (ExprOk.ty_ne_undefined hr hp hΓ hr')
    rcases arith_cases hres with ⟨num, ht, _⟩ | ⟨_, _, _, ht, _⟩
    · rw [show (Expr.arith n op l r).ty = n.ty from rfl, ht]
      cases num <;> simp [Numeric.toTy]
    · rw [show (Expr.arith n op l r).ty = n.ty from rfl, ht]
      simp
  | .compare n op l r, h => by
    rw [show (Expr.compare n op l r).ty = .boolean from
      h.2.2.eq_boolean fun t => Comparison.eq_boolean_of_result?]
    simp
  | .logic n op l r, h => by
    rw [show (Expr.logic n op l r).ty = .boolean from
      h.2.2.eq_boolean fun t => LogicOp.eq_boolean_of_result?]
    simp
  | .not n x, h => by
    rw [show (Expr.not n x).ty = .boolean from h.2.2]
    simp
  | .index n x is, h => by
    obtain ⟨⟨base, ⟨v, hv, _, rfl⟩, hel⟩, _⟩ := h
    intro hu
    have hvalue := hel.isValue (hΓ.find? hv)
    rw [show n.ty = .undefined from hu] at hvalue
    cases hvalue
  | .call n f args, h => by
    obtain ⟨_, sig, hsig, hret, _⟩ := h
    rw [show (Expr.call n f args).ty = sig.returnType from hret.symm]
    exact (signature?_spec hr hp hsig).1
  | .newArray n e dims, h => by
    rw [show (Expr.newArray n e dims).ty = .array e dims.length from h.2.2.2]
    simp

end

/-! ### Code of expressions -/

/-- The methods that calls can name are those of the functions, and these declare their types. -/
structure Declares (hs : Array HostRoutine) (M : Methods) (fs : List FunctionDecl) : Prop where
  methods : List.Forall₂ (MethodOf hs) M.toList fs
  params : ∀ f ∈ fs, ∀ x ∈ f.params, x.ty.isValue = true
  returns : ∀ f ∈ fs, f.returnType ≠ .undefined

section

variable {hs : Array HostRoutine} {M : Methods} {fs : List FunctionDecl} {Γ : Ctx}
  {P : Fault → Prop}

theorem lowerValue_leaves (hd : Declares hs M fs) (hΓ : Γ.Valued) {e : Expr} {st st' : State}
    {leaves : Bool} (hok : ExprOk fs Γ e) (h : lowerValue M st e = .ok (leaves, st')) :
    leaves = e.ty.isValue := by
  obtain ⟨m, strings, hf⟩ := exists_final st'
  exact ((lowerValue_layout h).layout hf).leaves_eq hd.methods hΓ hok

/-- An operand that has a value is followed by what comes next. -/
theorem failsOnly_operand (hd : Declares hs M fs) (hΓ : Γ.Valued) {e : Expr} {st : State}
    {target : Ty} {g : State → Except Fault β} (hok : ExprOk fs Γ e) (hv : e.ty.isValue = true)
    (he : FailsOnly P (lowerValue M st e))
    (hg : ∀ st', st'.visible = st.visible → st'.draft.locals = st.draft.locals →
      FailsOnly P (g st')) :
    FailsOnly P (lowerValue M st e >>= fun r => operand e.ty target r >>= g) := by
  refine he.bind fun r hr => ?_
  obtain ⟨leaves, st₁⟩ := r
  have hleaves : leaves = true := (lowerValue_leaves hd hΓ hok hr).trans hv
  subst hleaves
  obtain ⟨_, hvis, hloc, _⟩ := lowerValue_layout hr
  unfold operand consumed
  show FailsOnly P (g (if e.ty = .integer ∧ target = .float then st₁.emit .intToFloat else st₁))
  split
  · exact hg _ hvis hloc
  · exact hg _ hvis hloc

theorem failsOnly_resolve {st : State} (hag : Agrees st.visible Γ) {x : String} {v : Var}
    (hv : Γ.find? x = some v) : FailsOnly P (st.resolve x) := by
  obtain ⟨y, hy, _⟩ := hag.lookup hv
  unfold State.resolve
  rw [hy]
  exact failsOnly_ok y

theorem isValue_of_indexOk {is : List Expr} (hn : ∀ e ∈ is, e.ty ≠ .undefined)
    (h : ∀ e ∈ is, IndexOk e) : ∀ e ∈ is, e.ty.isValue = true := by
  intro e he
  rw [(h e he).resolve_right (hn e he)]
  rfl

theorem ExprsOk.ty_ne_undefined (hd : Declares hs M fs) (hΓ : Γ.Valued) {es : List Expr}
    (h : ExprsOk fs Γ es) : ∀ e ∈ es, e.ty ≠ .undefined := fun e he =>
  ExprOk.ty_ne_undefined hd.returns hd.params hΓ (exprsOk_iff.mp h e he)

/-- In a program where every result type is known, an operation has its result. -/
theorem Combined.known (hd : Declares hs M fs) (hΓ : Γ.Valued) {l r : Expr} {unknown t : Ty}
    {result : Option Ty} (h : Combined l.ty r.ty result unknown t) (hl : ExprOk fs Γ l)
    (hr : ExprOk fs Γ r) : result = some t :=
  h.of_known (ExprOk.ty_ne_undefined hd.returns hd.params hΓ hl)
    (ExprOk.ty_ne_undefined hd.returns hd.params hΓ hr)

theorem isValue_of_callOk (hd : Declares hs M fs) {name : String} {args : List Expr} {t : Ty}
    (h : CallOk fs name args t) (hn : ∀ e ∈ args, e.ty ≠ .undefined) :
    ∀ e ∈ args, e.ty.isValue = true := by
  obtain ⟨sig, hsig, _, hargs⟩ := h
  have hparams := (signature?_spec hd.returns hd.params hsig).2
  generalize sig.params = ts at hargs hparams
  clear hsig
  induction hargs with
  | nil => exact fun e he => absurd he List.not_mem_nil
  | cons ha _ ih =>
    obtain ⟨hne, hns⟩ := List.forall_mem_cons.mp hn
    obtain ⟨ht, hts⟩ := List.forall_mem_cons.mp hparams
    exact List.forall_mem_cons.mpr ⟨isValue_of_assignableTo hne ht ha.1, ih hns hts⟩

/-- Lowering has a plan for a well-typed call; its code can only be missing because of the number
of arguments. -/
theorem exists_callPlan (hd : Declares hs M fs) {name : String} {args : List Expr} {t : Ty}
    (h : CallOk fs name args t) (hv : ∀ e ∈ args, e.ty.isValue = true) :
    ∃ targets code leaves, callPlan M name (args.map Expr.ty) = .ok (targets, code, leaves) ∧
      targets.length = args.length ∧ FailsOnly (CallFault fs [(name, args.length)]) code := by
  obtain ⟨sig, hsig, _, hargs⟩ := h
  unfold callPlan
  rw [findIdx?_methods hd.methods, List.length_map]
  have hfind : findFunction? fs name args.length = _ := List.find?_eq_bind_findIdx?_getElem?
  unfold signature? at hsig
  cases hidx : fs.findIdx? (fun f => f.name = name ∧ f.arity = args.length) with
  | none =>
    rw [hidx] at hfind
    rw [hfind] at hsig
    obtain ⟨code, hb⟩ := builtin_of_callOk hsig hargs hv
    dsimp only
    rw [hb.template?.1]
    exact ⟨_, _, _, rfl, List.length_map .., failsOnly_ok code⟩
  | some id =>
    rw [hidx] at hfind
    obtain ⟨hlt, _⟩ := List.findIdx?_eq_some_iff_getElem.mp hidx
    have hf : fs[id]? = some fs[id] := List.getElem?_eq_getElem hlt
    obtain ⟨m, hm, hmf⟩ := Forall₂.getElem? hd.methods hf
    rw [Array.getElem?_toList] at hm
    rw [Option.bind_some, hf] at hfind
    rw [hfind] at hsig
    obtain rfl := Option.some.inj hsig
    dsimp only
    rw [hm]
    refine ⟨_, _, _, rfl, ?_, ?_⟩
    · rw [hmf.params, hargs.length_eq]
      rfl
    · split
      · exact failsOnly_ok _
      · next hhost =>
        split
        · exact failsOnly_ok _
        · next hlimit =>
          intro e he
          cases he
          refine ⟨name, args.length, fs[id], List.mem_singleton_self _, by omega, hfind, ?_, rfl⟩
          cases hext : fs[id].external with
          | none => rw [FunctionDecl.isExternal, hext]; rfl
          | some package =>
            obtain ⟨k, hk, _⟩ := hmf.host package hext
            rw [hhost] at hk
            cases hk

/-- Two operands that have values are followed by what comes next. -/
theorem failsOnly_operands (hd : Declares hs M fs) (hΓ : Γ.Valued) {l r : Expr} {st : State}
    {target : Ty} {g : State → Except Fault β} (hl : ExprOk fs Γ l) (hr : ExprOk fs Γ r)
    (hlv : l.ty.isValue = true) (hrv : r.ty.isValue = true)
    (hlf : FailsOnly (CallFault fs l.calls) (lowerValue M st l))
    (hrf : ∀ st', st'.visible = st.visible → FailsOnly (CallFault fs r.calls) (lowerValue M st' r))
    (hg : ∀ st', FailsOnly (CallFault fs (l.calls ++ r.calls)) (g st')) :
    FailsOnly (CallFault fs (l.calls ++ r.calls)) (lowerValue M st l >>= fun a =>
      operand l.ty target a >>= fun st => lowerValue M st r >>= fun b =>
        operand r.ty target b >>= g) := by
  have hlf' := hlf.imp fun _ he => he.mono fun _ => List.mem_append_left r.calls
  refine failsOnly_operand hd hΓ hl hlv hlf' fun st' hvis _ => ?_
  have hrf' := (hrf st' hvis).imp fun _ he => he.mono fun _ => List.mem_append_right l.calls
  exact failsOnly_operand hd hΓ hr hrv hrf' fun st'' _ _ => hg st''

mutual

/-- The code of a well-typed expression can only be missing because of a call. -/
theorem lowerValue_failsOnly (hd : Declares hs M fs) (hΓ : Γ.Valued) :
    ∀ {e : Expr} {st : State}, ExprOk fs Γ e → Agrees st.visible Γ →
      FailsOnly (CallFault fs e.calls) (lowerValue M st e)
  | .literal n v, st, _, _ => failsOnly_ok _
  | .name n x, st, hok, hag => by
    obtain ⟨v, hv, _⟩ := hok
    unfold lowerValue
    exact (failsOnly_resolve hag hv).bind fun _ _ => failsOnly_ok _
  | .arith n op l r, st, hok, hag => by
    obtain ⟨hl, hr, hres⟩ := hok
    obtain ⟨i, hi, hlv, hrv⟩ := exists_arithInstr (Combined.known hd hΓ hres hl hr)
    unfold lowerValue
    rw [hi]
    exact failsOnly_operands hd hΓ hl hr hlv hrv (lowerValue_failsOnly hd hΓ hl hag)
      (fun st' hvis => lowerValue_failsOnly hd hΓ hr (hvis ▸ hag)) fun _ => failsOnly_ok _
  | .compare n op l r, st, hok, hag => by
    obtain ⟨hl, hr, hres⟩ := hok
    obtain ⟨plan, hp, hlv, hrv⟩ := exists_comparisonPlan (Combined.known hd hΓ hres hl hr)
    unfold lowerValue
    rw [hp]
    exact failsOnly_operands hd hΓ hl hr hlv hrv (lowerValue_failsOnly hd hΓ hl hag)
      (fun st' hvis => lowerValue_failsOnly hd hΓ hr (hvis ▸ hag)) fun _ => failsOnly_ok _
  | .logic n op l r, st, hok, hag => by
    obtain ⟨hl, hr, hres⟩ := hok
    obtain ⟨hlt, hrt, _⟩ := logic_cases (Combined.known hd hΓ hres hl hr)
    have hlv : l.ty.isValue = true := by rw [hlt]; rfl
    have hrv : r.ty.isValue = true := by rw [hrt]; rfl
    unfold lowerValue
    exact failsOnly_operands hd hΓ hl hr hlv hrv (lowerValue_failsOnly hd hΓ hl hag)
      (fun st' hvis => lowerValue_failsOnly hd hΓ hr (hvis ▸ hag)) fun _ => failsOnly_ok _
  | .not n x, st, hok, hag => by
    obtain ⟨hx, hty, _⟩ := hok
    have hv : x.ty.isValue = true := by
      rw [hty.resolve_right (ExprOk.ty_ne_undefined hd.returns hd.params hΓ hx)]
      rfl
    unfold lowerValue
    exact failsOnly_operand hd hΓ hx hv (lowerValue_failsOnly hd hΓ hx hag) fun _ _ _ =>
      failsOnly_ok _
  | .index n x is, st, hok, hag => by
    obtain ⟨⟨base, ⟨v, hv, _, rfl⟩, hel⟩, his, hidx⟩ := hok
    have hvalues := isValue_of_indexOk (ExprsOk.ty_ne_undefined hd hΓ his) hidx
    obtain ⟨y, hy, hty, _⟩ := hag.lookup hv
    have hload : Agrees (st.emit y.slot.load).visible Γ := hag
    unfold lowerValue State.resolve
    rw [hy]
    refine (lowerAll_failsOnly hd hΓ his hvalues hload).bind fun st' _ => ?_
    obtain ⟨i, hi⟩ : ∃ i, elementInstr y.ty is.length = .ok i := by
      have hvalue := hΓ.find? hv
      rw [hty]
      cases hvt : v.ty with
      | array element rank =>
        rw [hvt] at hel
        exact ⟨_, if_pos hel.1⟩
      | string =>
        rw [hvt] at hel
        exact ⟨_, if_pos ⟨rfl, hel.1⟩⟩
      | void | undefined =>
        rw [hvt] at hvalue
        cases hvalue
      | integer | float | boolean =>
        rw [hvt] at hel
        exact hel.elim
    rw [hi]
    exact failsOnly_ok _
  | .call n f args, st, hok, hag => by
    obtain ⟨hargs, hcall⟩ := hok
    have hvalues := isValue_of_callOk hd hcall (ExprsOk.ty_ne_undefined hd hΓ hargs)
    obtain ⟨targets, code, leaves, hplan, _, hcode⟩ := exists_callPlan hd hcall hvalues
    unfold lowerValue
    rw [hplan]
    refine ((lowerAll_failsOnly hd hΓ hargs hvalues hag).imp fun _ he => ?_).bind fun st' _ =>
      (hcode.imp fun _ he => ?_).bind fun _ _ => failsOnly_ok _
    · exact he.mono fun _ => List.mem_cons_of_mem _
    · refine he.mono fun c hc => ?_
      rw [List.mem_singleton.mp hc]
      exact List.mem_cons_self ..
  | .newArray n e dims, st, hok, hag => by
    obtain ⟨hdims, hidx, hrank, _⟩ := hok
    have hvalues := isValue_of_indexOk (ExprsOk.ty_ne_undefined hd hΓ hdims) hidx
    unfold lowerValue
    refine (lowerAll_failsOnly hd hΓ hdims hvalues hag).bind fun st' _ => ?_
    rw [if_pos hrank]
    exact failsOnly_ok _

theorem lowerAll_failsOnly (hd : Declares hs M fs) (hΓ : Γ.Valued) :
    ∀ {ts : List Ty} {es : List Expr} {st : State}, ExprsOk fs Γ es →
      (∀ e ∈ es, e.ty.isValue = true) → Agrees st.visible Γ →
      FailsOnly (CallFault fs (exprsCalls es)) (lowerAll M st ts es)
  | [], _, st, _, _, _ => by
    rw [lowerAll]
    · exact failsOnly_ok st
    · simp
  | _ :: _, [], st, _, _, _ => by
    rw [lowerAll]
    · exact failsOnly_ok st
    · simp
  | t :: ts, e :: es, st, hok, hvalues, hag => by
    obtain ⟨he, hes⟩ := hok
    obtain ⟨hv, hvs⟩ := List.forall_mem_cons.mp hvalues
    have hef := (lowerValue_failsOnly hd hΓ he hag).imp fun _ h =>
      h.mono fun _ => List.mem_append_left (exprsCalls es)
    unfold lowerAll
    refine failsOnly_operand hd hΓ he hv hef fun st' hvis _ => ?_
    exact (lowerAll_failsOnly hd hΓ hes hvs (hvis ▸ hag)).imp fun _ h =>
      h.mono fun _ => List.mem_append_right e.calls

end

theorem lowerAs_failsOnly (hd : Declares hs M fs) (hΓ : Γ.Valued) {e : Expr} {target : Ty}
    {st : State} (hok : ExprOk fs Γ e) (hv : e.ty.isValue = true) (hag : Agrees st.visible Γ) :
    FailsOnly (CallFault fs e.calls) (lowerAs M st e target) := by
  have h : FailsOnly (CallFault fs e.calls)
      (lowerValue M st e >>= fun r => operand e.ty target r >>= pure) :=
    failsOnly_operand hd hΓ hok hv (lowerValue_failsOnly hd hΓ hok hag) fun st' _ _ =>
      failsOnly_ok st'
  simpa only [lowerAs, bind_pure] using h

end

end Quill.Lowering
