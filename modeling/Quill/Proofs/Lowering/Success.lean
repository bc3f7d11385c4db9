import Quill.Proofs.Compiled
import Quill.Proofs.Lowering.Limits

/-! # Checked programs have code

Checking and lowering look at a tree independently of each other, and nearly every fault of
lowering is about something that checking has reported.  `lowerProgram_of_clean` says that what is
left are the limits: a function with a body can have too many parameters or local variables, and a
call of such a function too many arguments. -/

namespace Quill.Lowering

open Code Typing

/-! ### Slots -/

section

variable {M : Methods} {m : Method} {strings : Array String} {returnType : Ty}

mutual

/-- Every declaration takes one slot, and no slot is used again. -/
theorem StmtCode.slots_eq : ∀ {s : Stmt} {p q : Point}, StmtCode M m strings returnType p s q →
    q.slots = p.slots + s.declarations
  | .expr _ e, p, q, h => by
    obtain ⟨_, _, _, _, _, rfl⟩ := h
    rfl
  | .decl _ x ty none, p, q, h => by
    obtain ⟨_, rfl⟩ := h
    rfl
  | .decl _ x ty (some e), p, q, h => by
    obtain ⟨_, _, _, _, rfl⟩ := h
    rfl
  | .assign _ x _ value, p, q, h => by
    obtain ⟨_, _, _, _, _, rfl⟩ := h
    rfl
  | .assignElement _ x is _ value, p, q, h => by
    obtain ⟨_, _, _, _, _, _, _, _, _, _, rfl⟩ := h
    rfl
  | .ifThen _ cond body, p, q, h => by
    obtain ⟨_, _, _, e, _, _, _, _, hb, _, rfl⟩ := h
    have hslots := StmtsCode.slots_eq hb
    exact hslots
  | .ifElse _ cond body other, p, q, h => by
    obtain ⟨_, _, _, e, e', _, _, ho, _, _, hb, _, rfl⟩ := h
    have hother := StmtsCode.slots_eq ho
    have hbody := StmtsCode.slots_eq hb
    dsimp only at hother hbody ⊢
    rw [Stmt.declarations]
    omega
  | .while _ cond body, p, q, h => by
    obtain ⟨_, _, _, _, e, _, _, _, _, _, hb, _, _, rfl⟩ := h
    have hslots := StmtsCode.slots_eq hb
    exact hslots
  | .doWhile _ body cond, p, q, h => by
    obtain ⟨_, _, _, e, _, _, hb, _, _, _, _, rfl⟩ := h
    have hslots := StmtsCode.slots_eq hb
    exact hslots
  | .ret _ none, p, q, h => by
    obtain ⟨_, rfl⟩ := h
    rfl
  | .ret _ (some e), p, q, h => by
    unfold StmtCode at h
    split at h
    · obtain ⟨_, _, _, rfl⟩ := h
      rfl
    · obtain ⟨_, _, _, _, _, _, rfl⟩ := h
      rfl
  | .block _ body, p, q, h => by
    obtain ⟨e, hb, rfl⟩ := h
    have hslots := StmtsCode.slots_eq hb
    exact hslots

theorem StmtsCode.slots_eq : ∀ {ss : List Stmt} {p q : Point},
    StmtsCode M m strings returnType p ss q → q.slots = p.slots + stmtsDeclarations ss
  | [], p, q, h => by
    rw [show q = p from h]
    rfl
  | s :: ss, p, q, h => by
    obtain ⟨e, hs, hss⟩ := h
    rw [StmtsCode.slots_eq hss, StmtCode.slots_eq hs, stmtsDeclarations]
    omega

end

end

/-! ### Code of statements -/

/-- There is a call with too many arguments, or the method needs more slots than there are: `slots`
are taken and `n` are needed. -/
def BodyFault (fs : List FunctionDecl) (name : String) (slots n : Nat) (calls : List (String × Nat))
    (e : Fault) : Prop :=
  CallFault fs calls e ∨ (slotLimit < slots + n ∧ e = .malformed (.tooManyLocals name))

theorem BodyFault.mono {fs : List FunctionDecl} {name : String} {slots slots' n n' : Nat}
    {cs cs' : List (String × Nat)} {e : Fault} (h : BodyFault fs name slots n cs e)
    (hle : slots + n ≤ slots' + n') (hsub : ∀ c ∈ cs, c ∈ cs') :
    BodyFault fs name slots' n' cs' e := by
  rcases h with hcall | ⟨hlimit, he⟩
  · exact .inl (hcall.mono hsub)
  · exact .inr ⟨by omega, he⟩

/-- What is known of a state after more code: it has the name of the first, the visible variables
and the number of taken slots. -/
structure Stands (st : State) (name : String) (visible : Visible) (slots : Nat) : Prop where
  name : st.draft.name = name
  visible : st.visible = visible
  slots : st.draft.locals.size = slots

section

variable {hs : Array HostRoutine} {M : Methods} {fs : List FunctionDecl} {returnType : Ty}
  {name : String} {visible : Visible} {slots : Nat}

theorem Stands.emit {st : State} (h : Stands st name visible slots) (i : Instr) :
    Stands (st.emit i) name visible slots := ⟨h.name, h.visible, h.slots⟩

theorem Stands.mark {st : State} (h : Stands st name visible slots) (l : Nat) :
    Stands (st.mark l) name visible slots := ⟨h.name, h.visible, h.slots⟩

theorem Stands.newLabel {st : State} (h : Stands st name visible slots) :
    Stands st.newLabel.2 name visible slots := ⟨h.name, h.visible, h.slots⟩

theorem Stands.lowerAs {st st' : State} (hst : Stands st name visible slots) {e : Expr}
    {target : Ty} (h : lowerAs M st e target = .ok st') : Stands st' name visible slots := by
  have hlays := lowerAs_layout h
  exact ⟨hlays.grows.head.1.trans hst.name, hlays.visible.trans hst.visible,
    (congrArg Array.size hlays.locals).trans hst.slots⟩

theorem Stands.lowerStmts {st st' : State} (hst : Stands st name visible slots) {ss : List Stmt}
    (h : lowerStmts M returnType st ss = .ok st') :
    Stands (st'.restore visible) name visible (slots + stmtsDeclarations ss) := by
  have hlays := lowerStmts_layout h
  obtain ⟨m, strings, hf⟩ := exists_final st'
  have hslots : st'.draft.locals.size = st.draft.locals.size + _ := (hlays.layout hf).slots_eq
  exact ⟨hlays.grows.head.1.trans hst.name, rfl, hslots.trans (by rw [hst.slots])⟩

theorem failsOnly_declare {st : State} (hst : Stands st name visible slots) (x : String) (ty : Ty)
    (calls : List (String × Nat)) :
    FailsOnly (BodyFault fs name slots 1 calls) (st.declare x ty) := by
  unfold State.declare Draft.allocLocal
  dsimp only
  split
  · exact failsOnly_ok _
  · next hlimit =>
    intro e he
    cases he
    rw [hst.slots] at hlimit
    exact .inr ⟨by omega, by rw [hst.name]⟩

theorem failsOnly_calls {α : Type} {n : Nat} {calls calls' : List (String × Nat)}
    {x : Except Fault α} (h : FailsOnly (CallFault fs calls) x) (hsub : ∀ c ∈ calls, c ∈ calls') :
    FailsOnly (BodyFault fs name slots n calls') x := h.imp fun _ he => .inl (he.mono hsub)

theorem failsOnly_within {α : Type} {slots' n n' : Nat} {calls calls' : List (String × Nat)}
    {x : Except Fault α} (h : FailsOnly (BodyFault fs name slots n calls) x)
    (hle : slots + n ≤ slots' + n') (hsub : ∀ c ∈ calls, c ∈ calls') :
    FailsOnly (BodyFault fs name slots' n' calls') x := h.imp fun _ he => he.mono hle hsub

section

variable {α : Type} {Γ : Ctx} {st : State} {n : Nat} {calls : List (String × Nat)}
  {g : State → Except Fault α}

theorem failsOnly_as (hd : Declares hs M fs) (hΓ : Γ.Valued) (hag : Agrees visible Γ)
    (hst : Stands st name visible slots) {e : Expr} {target : Ty} (he : ExprOk fs Γ e)
    (hv : e.ty.isValue = true) (hsub : ∀ c ∈ e.calls, c ∈ calls)
    (hg : ∀ st', Stands st' name visible slots →
      FailsOnly (BodyFault fs name slots n calls) (g st')) :
    FailsOnly (BodyFault fs name slots n calls) (lowerAs M st e target >>= g) := by
  have hvis : Agrees st.visible Γ := hst.visible ▸ hag
  exact (failsOnly_calls (lowerAs_failsOnly hd hΓ he hv hvis) hsub).bind fun st' h =>
    hg st' (hst.lowerAs h)

theorem ExprOk.isValue_of_assignableTo (hd : Declares hs M fs) (hΓ : Γ.Valued) {e : Expr}
    {target : Ty} (he : ExprOk fs Γ e) (hv : target.isValue = true)
    (h : e.ty.assignableTo target = true) : e.ty.isValue = true :=
  Lowering.isValue_of_assignableTo (ExprOk.ty_ne_undefined hd.returns hd.params hΓ he) (.inl hv) h

theorem ExprOk.isValue_of_returnOk (hd : Declares hs M fs) (hΓ : Γ.Valued) {e : Expr}
    (he : ExprOk fs Γ e) (hv : returnType.isValue = true) (h : ReturnOk returnType e.ty) :
    e.ty.isValue = true := by
  have hvoid : returnType ≠ .void := by
    rintro rfl
    cases hv
  rw [ReturnOk, if_neg hvoid] at h
  exact ExprOk.isValue_of_assignableTo hd hΓ he hv (h.resolve_left (ne_undefined_of_isValue hv))

theorem isValue_of_condition (hd : Declares hs M fs) (hΓ : Γ.Valued) {cond : Expr}
    (h : ConditionOk fs Γ cond) : cond.ty.isValue = true := by
  rw [h.2.resolve_right (ExprOk.ty_ne_undefined hd.returns hd.params hΓ h.1)]
  rfl

theorem failsOnly_condition (hd : Declares hs M fs) (hΓ : Γ.Valued) (hag : Agrees visible Γ)
    (hst : Stands st name visible slots) {cond : Expr} (h : ConditionOk fs Γ cond)
    (hsub : ∀ c ∈ cond.calls, c ∈ calls)
    (hg : ∀ st', Stands st' name visible slots →
      FailsOnly (BodyFault fs name slots n calls) (g st')) :
    FailsOnly (BodyFault fs name slots n calls) (lowerAs M st cond .boolean >>= g) :=
  failsOnly_as hd hΓ hag hst h.1 (isValue_of_condition hd hΓ h) hsub hg

end

/-- The code of an assignment to an element can only be missing because of a call. -/
theorem failsOnly_assignElement (hd : Declares hs M fs) {Γ : Ctx} {st : State} {n : Nat}
    {span nspan : Span} {x : String} {is : List Expr} {value : Expr} (hΓ : Γ.Valued)
    (hag : Agrees visible Γ) (hst : Stands st name visible slots)
    (hok : StmtOk fs returnType Γ (.assignElement span x is nspan value)) :
    FailsOnly (BodyFault fs name slots n (exprsCalls is ++ value.calls))
      (lowerStmt M returnType st (.assignElement span x is nspan value)) := by
  obtain ⟨he, his, hidx, element, ⟨v, hv, _, hvt⟩, hassign⟩ := hok
  have hvalue := ExprOk.isValue_of_assignableTo hd hΓ he (isValue_toTy element) hassign
  have hvis : Agrees st.visible Γ := hst.visible ▸ hag
  obtain ⟨y, hy, hyt, _⟩ := hvis.lookup hv
  have hload : Agrees (st.emit y.slot.load).visible Γ := hvis
  have hvalues := isValue_of_indexOk (ExprsOk.ty_ne_undefined hd hΓ his) hidx
  have hresolve : st.resolve x = .ok y := by
    unfold State.resolve
    rw [hy]
  unfold lowerStmt lowerElement
  refine (failsOnly_resolve hvis hv).bind fun y' hy' => ?_
  obtain rfl : y = y' := Except.ok.inj (hresolve.symm.trans hy')
  rw [hyt, hvt]
  dsimp only
  rw [if_neg (by simp)]
  refine (failsOnly_calls (lowerAll_failsOnly hd hΓ his hvalues hload) fun _ =>
    List.mem_append_left _).bind fun st₁ h₁ => ?_
  have hag₁ : Agrees st₁.visible Γ := (lowerAll_layout h₁).visible ▸ hload
  exact (failsOnly_calls (lowerAs_failsOnly hd hΓ he hvalue hag₁) fun _ =>
    List.mem_append_right _).bind fun _ _ => failsOnly_ok _

mutual

/-- The code of a well-typed statement can only be missing because of a limit. -/
theorem lowerStmt_failsOnly (hd : Declares hs M fs) :
    ∀ {s : Stmt} {st : State} {Γ : Ctx} {name : String} {visible : Visible} {slots : Nat},
      StmtOk fs returnType Γ s → Γ.Valued → Agrees visible Γ → Stands st name visible slots →
      FailsOnly (BodyFault fs name slots s.declarations s.calls) (lowerStmt M returnType st s)
  | .expr _ e, st, Γ, name, visible, slots, hok, hΓ, hag, hst => by
    have hvis : Agrees st.visible Γ := hst.visible ▸ hag
    unfold lowerStmt
    exact (failsOnly_calls (lowerValue_failsOnly hd hΓ hok hvis) fun _ => id).bind fun _ _ =>
      failsOnly_ok _
  | .decl _ x ty none, st, Γ, name, visible, slots, _, _, _, hst => by
    unfold lowerStmt
    exact (failsOnly_declare hst x ty _).bind fun _ _ => failsOnly_ok _
  | .decl _ x ty (some e), st, Γ, name, visible, slots, hok, hΓ, hag, hst => by
    obtain ⟨hty, _, hinit⟩ := hok
    obtain ⟨he, hassign⟩ := hinit e rfl
    have hv := ExprOk.isValue_of_assignableTo hd hΓ he hty hassign
    unfold lowerStmt
    refine failsOnly_as hd hΓ hag hst he hv (fun _ => id) fun st₁ hst₁ => ?_
    exact (failsOnly_declare hst₁ x ty _).bind fun _ _ => failsOnly_ok _
  | .assign _ x _ value, st, Γ, name, visible, slots, hok, hΓ, hag, hst => by
    obtain ⟨he, v, hv, hassign⟩ := hok
    have hvalue := ExprOk.isValue_of_assignableTo hd hΓ he (hΓ.find? hv) hassign
    unfold lowerStmt
    refine (failsOnly_resolve (hst.visible ▸ hag) hv).bind fun y _ => ?_
    exact failsOnly_as hd hΓ hag hst he hvalue (fun _ => id) fun _ _ => failsOnly_ok _
  | .assignElement _ _ _ _ _, st, Γ, name, visible, slots, hok, hΓ, hag, hst =>
    failsOnly_assignElement hd hΓ hag hst hok
  | .ifThen _ cond body, st, Γ, name, visible, slots, hok, hΓ, hag, hst => by
    obtain ⟨hcond, hbody⟩ := hok
    unfold lowerStmt
    refine failsOnly_condition hd hΓ hag hst.newLabel.newLabel hcond
      (fun _ => List.mem_append_left _) fun st₁ hst₁ => ?_
    have hst₂ := ((hst₁.emit (.branchIfTrue st.newLabel.1)).emit
      (.jump st.newLabel.2.newLabel.1)).mark st.newLabel.1
    refine FailsOnly.bind ?_ fun _ _ => failsOnly_ok _
    exact failsOnly_within (lowerStmts_failsOnly hd hbody hΓ.nil_cons hag hst₂) (Nat.le_refl _)
      fun _ => List.mem_append_right _
  | .ifElse _ cond body other, st, Γ, name, visible, slots, hok, hΓ, hag, hst => by
    obtain ⟨hcond, hbody, hother⟩ := hok
    unfold lowerStmt
    refine failsOnly_condition hd hΓ hag hst.newLabel.newLabel hcond
      (fun _ => List.mem_append_left _) fun st₁ hst₁ => ?_
    have hst₁ := hst₁.emit (.branchIfTrue st.newLabel.1)
    refine FailsOnly.bind (failsOnly_within (lowerStmts_failsOnly hd hother hΓ.nil_cons hag hst₁)
      ?_ fun _ hc => ?_) fun st₂ h₂ => ?_
    · rw [Stmt.declarations]
      omega
    · exact List.mem_append_right _ (List.mem_append_right _ hc)
    refine FailsOnly.bind ?_ fun _ _ => failsOnly_ok _
    have hst₂ := ((hst₁.lowerStmts h₂).emit (.jump st.newLabel.2.newLabel.1)).mark st.newLabel.1
    rw [← hst.visible] at hag hst₂
    refine failsOnly_within (lowerStmts_failsOnly hd hbody hΓ.nil_cons hag hst₂) ?_ fun _ hc => ?_
    · rw [Stmt.declarations]
      omega
    · exact List.mem_append_right _ (List.mem_append_left _ hc)
  | .while _ cond body, st, Γ, name, visible, slots, hok, hΓ, hag, hst => by
    obtain ⟨hcond, hbody⟩ := hok
    have hst₀ := hst.newLabel.newLabel.newLabel.mark st.newLabel.1
    unfold lowerStmt
    refine failsOnly_condition hd hΓ hag hst₀ hcond (fun _ => List.mem_append_left _)
      fun st₁ hst₁ => ?_
    have hst₂ := ((hst₁.emit (.branchIfTrue st.newLabel.2.newLabel.1)).emit
      (.jump st.newLabel.2.newLabel.2.newLabel.1)).mark st.newLabel.2.newLabel.1
    refine FailsOnly.bind ?_ fun _ _ => failsOnly_ok _
    exact failsOnly_within (lowerStmts_failsOnly hd hbody hΓ.nil_cons hag hst₂) (Nat.le_refl _)
      fun _ => List.mem_append_right _
  | .doWhile _ body cond, st, Γ, name, visible, slots, hok, hΓ, hag, hst => by
    obtain ⟨hbody, hcond⟩ := hok
    have hle := le_tail_afterAll Γ body
    have hst₀ := hst.newLabel.newLabel.newLabel.mark st.newLabel.1
    unfold lowerStmt
    refine (failsOnly_within (lowerStmts_failsOnly hd hbody hΓ.nil_cons hag hst₀) (Nat.le_refl _)
      fun _ => List.mem_append_right _).bind fun st₁ h₁ => ?_
    have hvis : Agrees st.visible Γ := hst.visible ▸ hag
    have hag₁ : Agrees ((st₁.restore st.visible).mark st.newLabel.2.newLabel.1).visible
      (afterAll ([] :: Γ) body).tail := hvis.le hle
    have hcv := isValue_of_condition hd (hle.valued hΓ) hcond
    exact (failsOnly_calls (lowerAs_failsOnly hd (hle.valued hΓ) hcond.1 hcv hag₁) fun _ =>
      List.mem_append_left _).bind fun _ _ => failsOnly_ok _
  | .ret _ none, st, Γ, name, visible, slots, _, _, _, _ => failsOnly_ok _
  | .ret _ (some e), st, Γ, name, visible, slots, hok, hΓ, hag, hst => by
    obtain ⟨he, hret⟩ := hok
    have hvis : Agrees st.visible Γ := hst.visible ▸ hag
    unfold lowerStmt
    split
    · next hval =>
      exact failsOnly_as hd hΓ hag hst he (ExprOk.isValue_of_returnOk hd hΓ he hval hret)
        (fun _ => id) fun _ _ => failsOnly_ok _
    · exact (failsOnly_calls (lowerValue_failsOnly hd hΓ he hvis) fun _ => id).bind fun _ _ =>
        failsOnly_ok _
  | .block _ body, st, Γ, name, visible, slots, hok, hΓ, hag, hst => by
    unfold lowerStmt
    exact (lowerStmts_failsOnly hd hok hΓ.nil_cons hag hst).bind fun _ _ => failsOnly_ok _

theorem lowerStmts_failsOnly (hd : Declares hs M fs) :
    ∀ {ss : List Stmt} {st : State} {b : Block} {Γ : Ctx} {name : String} {visible : Visible}
      {slots : Nat}, StmtsOk fs returnType (b :: Γ) ss → Ctx.Valued (b :: Γ) →
      Agrees visible (b :: Γ) → Stands st name visible slots →
      FailsOnly (BodyFault fs name slots (stmtsDeclarations ss) (stmtsCalls ss))
        (lowerStmts M returnType st ss)
  | [], st, b, Γ, name, visible, slots, _, _, _, _ => failsOnly_ok _
  | s :: ss, st, b, Γ, name, visible, slots, hok, hΓ, hag, hst => by
    obtain ⟨hs, hss⟩ := hok
    unfold lowerStmts
    refine (failsOnly_within (lowerStmt_failsOnly hd hs hΓ hag hst) ?_ fun _ =>
      List.mem_append_left _).bind fun st₁ h₁ => ?_
    · rw [stmtsDeclarations]
      omega
    have hlays := lowerStmt_layout h₁
    obtain ⟨m, strings, hf⟩ := exists_final st₁
    have hcode := hlays.layout hf
    have hslots : st₁.draft.locals.size = st.draft.locals.size + s.declarations := hcode.slots_eq
    have hvis : Agrees st.visible (b :: Γ) := hst.visible ▸ hag
    have hag₁ : Agrees st₁.visible (after (b :: Γ) s) := hcode.agrees hs hvis
    have hΓ₁ := hs.valued_after hΓ
    obtain ⟨b', Γ', heq, _⟩ := after_cons b Γ s
    rw [heq] at hss hag₁ hΓ₁
    have hst₁ : Stands st₁ name st₁.visible st₁.draft.locals.size :=
      ⟨hlays.grows.head.1.trans hst.name, rfl, rfl⟩
    refine failsOnly_within (lowerStmts_failsOnly hd hss hΓ₁ hag₁ hst₁) ?_ fun _ =>
      List.mem_append_right _
    rw [hslots, hst.slots, stmtsDeclarations]
    omega

end

end

/-! ### Code of programs -/

/-- A limit that a function with a body is over, and what lowering says of it. -/
inductive OverLimit (fs : List FunctionDecl) (f : FunctionDecl) : Malformed → Prop
  | parameters : slotLimit < f.arity → OverLimit fs f (.tooManyParameters f.name)
  | locals : slotLimit < stmtsDeclarations f.body → OverLimit fs f (.tooManyLocals f.name)
  | arguments {name : String} {argc : Nat} {g : FunctionDecl} :
    (name, argc) ∈ stmtsCalls f.body → callLimit < argc → findFunction? fs name argc = some g →
    g.isExternal = false → OverLimit fs f (.tooManyArguments name)

/-- One of the functions with a body is over a limit. -/
def LimitFault (fs gs : List FunctionDecl) (e : Fault) : Prop :=
  ∃ f ∈ gs, f.isExternal = false ∧ ∃ reason, e = .malformed reason ∧ OverLimit fs f reason

section

variable {hs : Array HostRoutine} {M : Methods} {fs : List FunctionDecl}

theorem exists_finish {d : Draft}
    (h : ∀ l < d.labels.size, ∃ p, d.labels[l]? = some (some p)) : ∃ m, d.finish = .ok m := by
  refine ⟨_, Draft.finish_eq_ok_iff.mpr ⟨fun l hl => ?_, rfl⟩⟩
  obtain ⟨p, hp⟩ := h l (Array.getElem?_eq_some_iff.mp hl).1
  rw [hp] at hl
  cases hl

theorem lowerFunction_failsOnly (hd : Declares hs M fs) {f : FunctionDecl} (hf : FunctionOk fs f)
    (hext : f.isExternal = false) (pool : Array String) :
    FailsOnly (LimitFault fs [f]) (lowerFunction M pool f) := by
  have hmem : f ∈ [f] := List.mem_singleton_self f
  obtain ⟨hparams, hbody⟩ := hf
  obtain ⟨hok, _⟩ := hbody hext
  unfold lowerFunction
  dsimp only
  split
  · next hlimit =>
    intro e he
    cases he
    exact ⟨f, hmem, hext, _, rfl, .parameters hlimit⟩
  have hΓ : Ctx.Valued [paramBlock f.params] := valued_paramBlock hparams
  refine ((lowerStmts_failsOnly hd hok hΓ (agrees_bindParams f.params)
    ⟨rfl, rfl, rfl⟩).imp fun e he => ?_).bind fun st hst => ?_
  · rcases he with ⟨name, argc, g, hcall, hargc, hfind, hg, rfl⟩ | ⟨hslots, rfl⟩
    · exact ⟨f, hmem, hext, _, rfl, .arguments hcall hargc hfind hg⟩
    · refine ⟨f, hmem, hext, _, rfl, .locals ?_⟩
      simpa [Draft.new] using hslots
  · have hgrows := (lowerStmts_layout hst).grows
    obtain ⟨m, hm⟩ : ∃ m, ((st.draft.emit .nop).emit .ret).finish = .ok m :=
      exists_finish fun l hl => hgrows.fresh l (Nat.zero_le l) hl
    rw [hm]
    exact failsOnly_ok _

theorem lowerFunctions_failsOnly (hd : Declares hs M fs) {gs : List FunctionDecl} :
    ∀ {pool : Array String} {done : Array Method}, done.size + gs.length = fs.length →
      (∀ f ∈ gs, FunctionOk fs f) → FailsOnly (LimitFault fs gs) (lowerFunctions M pool done gs) := by
  induction gs with
  | nil => exact fun _ _ => failsOnly_ok _
  | cons f gs ih =>
    intro pool done hsize hok
    obtain ⟨hf, hgs⟩ := List.forall_mem_cons.mp hok
    rw [List.length_cons] at hsize
    have hrest : ∀ (pool : Array String) (m : Method),
        FailsOnly (LimitFault fs (f :: gs)) (lowerFunctions M pool (done.push m) gs) := by
      intro pool m
      refine (ih (by rw [Array.size_push]; omega) hgs).imp ?_
      rintro e ⟨g, hg, he⟩
      exact ⟨g, List.mem_cons_of_mem f hg, he⟩
    unfold lowerFunctions
    split
    · have hlt : done.size < M.size := by
        have hlen := hd.methods.length_eq
        rw [Array.length_toList] at hlen
        omega
      rw [Array.getElem?_eq_getElem hlt]
      exact hrest pool _
    · next hext =>
      refine ((lowerFunction_failsOnly hd hf (by simpa using hext) pool).imp ?_).bind
        fun r _ => hrest r.2 r.1
      rintro e ⟨g, hg, he⟩
      rw [List.mem_singleton.mp hg] at he
      exact ⟨f, List.mem_cons_self .., he⟩

/-- Functions with different names or numbers of parameters can be declared. -/
theorem exists_declareMethods {gs : List FunctionDecl} :
    ∀ (d : Declared) (fs : List FunctionDecl),
      List.Forall₂ (MethodOf d.hostRoutines) d.methods.toList fs →
      ((fs ++ gs).map fun f => (f.name, f.arity)).Nodup → ∃ d', declareMethods d gs = .ok d' := by
  induction gs with
  | nil => exact fun _ _ _ _ => ⟨_, rfl⟩
  | cons g gs ih =>
    intro d fs hd hnodup
    have hnew : d.methods.any (·.hasSignature g.name g.arity) = false := by
      rw [← Array.any_toList, List.any_eq_false]
      intro m hm hsig
      obtain ⟨f, hf, hmf⟩ := exists_of_forall₂_right hd.flip hm
      rw [hmf.hasSignature, decide_eq_true_eq] at hsig
      rw [List.map_append, List.nodup_append] at hnodup
      exact hnodup.2.2 _ (List.mem_map_of_mem hf) _ (List.mem_map_of_mem (List.mem_cons_self ..))
        (by rw [hsig.1, hsig.2])
    obtain ⟨d₁, hd₁⟩ : ∃ d₁, declareMethod d g = .ok d₁ := by
      unfold declareMethod
      rw [hnew]
      exact ⟨_, rfl⟩
    obtain ⟨hw, m, hm, hmg⟩ := declareMethod_layout hd₁
    have hd' : List.Forall₂ (MethodOf d₁.hostRoutines) d₁.methods.toList (fs ++ [g]) := by
      rw [hm, Array.toList_push]
      exact List.rel_append (hd.imp fun _ _ h => h.within hw) (.cons hmg .nil)
    obtain ⟨d', h'⟩ := ih d₁ _ hd' (by simpa using hnodup)
    unfold declareMethods
    rw [hd₁]
    exact ⟨d', h'⟩

theorem lowerProgram_failsOnly {p : Program} (hok : ProgramOk p.functions)
    (hr : ∀ f ∈ p.functions, f.returnType ≠ .undefined) :
    FailsOnly (LimitFault p.functions p.functions) (lowerProgram p) := by
  obtain ⟨d, hd⟩ := exists_declareMethods ⟨#[], #[]⟩ [] .nil hok.distinct
  obtain ⟨_, ms, hms, hmethods⟩ := declareMethods_layout hd
  obtain rfl : d.methods.toList = ms := by simpa using hms
  have hdecl : Declares d.hostRoutines d.methods p.functions :=
    ⟨hmethods, fun f hf => (hok.functions f hf).1, hr⟩
  unfold lowerProgram
  rw [hd]
  refine (lowerFunctions_failsOnly hdecl ?_ hok.functions).bind fun _ _ => failsOnly_ok _
  simp

end

/-- A program that is checked without a report has an image, unless one of its functions is over a
limit. -/
theorem lowerProgram_of_clean {p : Program} (hc : Clean (checkFresh p).2.log)
    (hr : ∀ f ∈ p.functions, f.returnType ≠ .undefined) :
    (∃ image, lowerProgram (checkFresh p).1 = .ok image) ∨
      ∃ f ∈ (checkFresh p).1.functions, f.isExternal = false ∧
        ∃ reason, lowerProgram (checkFresh p).1 = .error (.malformed reason) ∧
          OverLimit (checkFresh p).1.functions f reason := by
  obtain ⟨hok, hann⟩ := checkFresh_sound hc
  have hr' : ∀ f ∈ (checkFresh p).1.functions, f.returnType ≠ .undefined := by
    intro f hf
    obtain ⟨g, hg, _, rfl⟩ := exists_of_forall₂_right hann hf
    exact hr g hg
  cases h : lowerProgram (checkFresh p).1 with
  | ok image => exact .inl ⟨image, rfl⟩
  | error e =>
    obtain ⟨f, hf, hext, reason, rfl, hover⟩ := lowerProgram_failsOnly hok hr' e h
    exact .inr ⟨f, hf, hext, reason, rfl, hover⟩

/-- The sample program keeps all limits. -/
theorem nearProgram_lowered : ∃ image, lowerProgram (checkFresh nearProgram).1 = .ok image := by
  rcases lowerProgram_of_clean nearProgram_compiled.clean (by decide) with h | ⟨_, _, _, _, h, _⟩
  · exact h
  · rw [nearProgram_compiled.lowered] at h
    cases h

end Quill.Lowering
