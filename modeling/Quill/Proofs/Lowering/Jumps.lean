import Quill.Proofs.Lowering.Depth

/-! # Where lowered code branches to

The branches in the code of an expression and of a statement go to positions of that code
(`expr_closed`, `stmt_closed`), and to no position of the code of a statement from elsewhere
(`StmtCode.sealed`). -/

namespace Quill.Lowering

open Code

/-! ### Pieces of code -/

/-- The branches from `a` up to `b` go where `R` says of their positions. -/
structure JumpsTo (m : Method) (R : Nat → Nat → Prop) (a b : Nat) : Prop where
  le : a ≤ b
  branches : ∀ pc i label t, a ≤ pc → pc < b → m.code[pc]? = some i → i.target? = some label →
    m.position? label = some t → R pc t

/-- The branches of a piece of code go to positions of the piece. -/
def Closed (m : Method) (a b : Nat) : Prop := JumpsTo m (fun _ t => a ≤ t ∧ t < b) a b

section

variable {m : Method} {R R' : Nat → Nat → Prop} {a b c : Nat}

theorem JumpsTo.nil (a : Nat) : JumpsTo m R a a :=
  ⟨Nat.le_refl a, fun _ _ _ _ hle hlt => absurd hlt (Nat.not_lt.mpr hle)⟩

theorem JumpsTo.trans (h : JumpsTo m R a b) (h' : JumpsTo m R b c) : JumpsTo m R a c := by
  refine ⟨Nat.le_trans h.le h'.le, fun pc i label t hle hlt => ?_⟩
  by_cases hb : pc < b
  · exact h.branches pc i label t hle hb
  · exact h'.branches pc i label t (Nat.not_lt.mp hb) hlt

theorem JumpsTo.mono (h : JumpsTo m R a b)
    (hR : ∀ pc t, a ≤ pc → pc < b → R pc t → R' pc t) : JumpsTo m R' a b := by
  refine ⟨h.le, fun pc i label t hle hlt hi ht hpos => hR pc t hle hlt ?_⟩
  exact h.branches pc i label t hle hlt hi ht hpos

theorem JumpsTo.plain {i : Instr} (hi : m.code[a]? = some i) (ht : i.target? = none) :
    JumpsTo m R a (a + 1) := by
  refine ⟨Nat.le_succ a, fun pc j label t hle hlt hj hlabel _ => ?_⟩
  obtain rfl : pc = a := by omega
  obtain rfl := Option.some.inj (hj.symm.trans hi)
  rw [ht] at hlabel
  cases hlabel

theorem JumpsTo.branch {i : Instr} {label pos : Nat} (hi : m.code[a]? = some i)
    (ht : i.target? = some label) (hpos : m.position? label = some pos) (hR : R a pos) :
    JumpsTo m R a (a + 1) := by
  refine ⟨Nat.le_succ a, fun pc j l t hle hlt hj hl hp => ?_⟩
  obtain rfl : pc = a := by omega
  obtain rfl := Option.some.inj (hj.symm.trans hi)
  rw [ht] at hl
  obtain rfl := Option.some.inj hl
  obtain rfl := Option.some.inj (hp.symm.trans hpos)
  exact hR

theorem Closed.jumpsTo (h : Closed m a b)
    (hR : ∀ pc t, (a ≤ pc ∧ pc < b) → (a ≤ t ∧ t < b) → R pc t) : JumpsTo m R a b :=
  h.mono fun pc t hle hlt => hR pc t ⟨hle, hlt⟩

theorem Closed.trans (h : Closed m a b) (h' : Closed m b c) : Closed m a c := by
  have hab := h.le
  have hbc := h'.le
  refine JumpsTo.trans (h.jumpsTo fun pc t _ ht => ?_) (h'.jumpsTo fun pc t _ ht => ?_)
  · omega
  · omega

theorem codeAt_closed {is : List Instr} (h : CodeAt m a is) (ht : ∀ i ∈ is, i.target? = none) :
    Closed m a (a + is.length) := by
  refine ⟨Nat.le_add_right a _, fun pc i label t hle hlt hi hlabel _ => ?_⟩
  obtain ⟨k, rfl⟩ := Nat.exists_eq_add_of_le hle
  have hk : k < is.length := by omega
  have hcode := h k is[k] (List.getElem?_eq_getElem hk)
  obtain rfl := Option.some.inj (hi.symm.trans hcode)
  rw [ht _ (List.getElem_mem hk)] at hlabel
  cases hlabel

theorem widened_closed {t target : Ty} (h : Widened m t target a b) : Closed m a b := by
  unfold Widened at h
  split at h
  · obtain ⟨hi, rfl⟩ := h
    exact .plain hi rfl
  · subst h
    exact .nil _

theorem discard_closed {leaves : Bool} (h : DiscardCode m leaves a b) : Closed m a b := by
  unfold DiscardCode at h
  split at h
  · obtain ⟨hi, rfl⟩ := h
    exact .plain hi rfl
  · subst h
    exact .nil _

theorem truth_closed {branch : Nat → Instr} {taken : Int64} (ht : ∀ l, (branch l).target? = some l)
    (h : TruthCode m branch taken a b) : Closed m a b := by
  obtain ⟨yes, no, stop, hcode, hyes, hstop, rfl⟩ := h
  have hbranch : JumpsTo m (fun _ t => a ≤ t ∧ t < a + 7) a (a + 1) :=
    .branch (hcode 0 _ rfl) (ht yes) hyes (by omega)
  have hno : JumpsTo m (fun _ t => a ≤ t ∧ t < a + 7) (a + 1) (a + 3) :=
    JumpsTo.trans (.plain (hcode 1 _ rfl) rfl) (.plain (hcode 2 _ rfl) rfl)
  have hjump : JumpsTo m (fun _ t => a ≤ t ∧ t < a + 7) (a + 3) (a + 4) :=
    .branch (hcode 3 _ rfl) rfl hstop (by omega)
  have hyes' : JumpsTo m (fun _ t => a ≤ t ∧ t < a + 7) (a + 4) (a + 6) :=
    JumpsTo.trans (.plain (hcode 4 _ rfl) rfl) (.plain (hcode 5 _ rfl) rfl)
  exact ((hbranch.trans hno).trans hjump).trans (hyes'.trans (.plain (hcode 6 _ rfl) rfl))

theorem load_closed (slot : Slot) (hi : m.code[a]? = some slot.load) : Closed m a (a + 1) := by
  cases slot with
  | arg k => exact .plain hi rfl
  | «local» k => exact .plain hi rfl

theorem store_closed (slot : Slot) (hi : m.code[a]? = some slot.store) : Closed m a (a + 1) := by
  cases slot with
  | arg k => exact .plain hi rfl
  | «local» k => exact .plain hi rfl

theorem operand_closed {value : Nat → Nat → Prop} {t target : Ty}
    (h : OperandCode m value t target a b) (hvalue : ∀ k, value a k → Closed m a k) :
    Closed m a b := by
  obtain ⟨k, hk, hw⟩ := h
  exact (hvalue k hk).trans (widened_closed hw)

end

/-! ### Expressions -/

section

variable {image : Image} {M : Methods} {fs : List FunctionDecl} {m : Method} {visible : Visible}

mutual

theorem expr_closed (him : ImageOf image M fs) :
    ∀ {e : Expr} {leaves : Bool} {a b : Nat}, ExprCode M m image.strings visible e leaves a b →
      Closed m a b
  | .literal n v, leaves, a, b, hc => by
    obtain ⟨rfl, rfl, i, hi, hcode⟩ := hc
    cases v with
    | integer | float | boolean =>
      cases hi
      exact .plain hcode rfl
    | string s =>
      obtain ⟨id, rfl, -⟩ := hi
      exact .plain hcode rfl
  | .name n x, leaves, a, b, hc => by
    obtain ⟨rfl, rfl, y, -, hcode⟩ := hc
    exact load_closed y.slot hcode
  | .arith n op l r, leaves, a, b, hc => by
    obtain ⟨rfl, i, k, k', hi, hl, hr, hcode, rfl⟩ := hc
    have hleft := operand_closed hl fun k h => expr_closed him h
    have hright := operand_closed hr fun k h => expr_closed him h
    refine (hleft.trans hright).trans ?_
    rcases arithInstr_cases hi with rfl | ⟨num, rfl⟩
    · exact .plain hcode rfl
    · exact .plain hcode rfl
  | .compare n op l r, leaves, a, b, hc => by
    obtain ⟨rfl, ty, between, num, k, k', hp, hl, hr, hbetween, htruth⟩ := hc
    have hleft := operand_closed hl fun k h => expr_closed him h
    have hright := operand_closed hr fun k h => expr_closed him h
    have hmiddle : Closed m k' (k' + between.length) := by
      refine codeAt_closed hbetween fun i hi => ?_
      rcases comparisonPlan_between hp with rfl | rfl
      · cases hi
      · simp only [List.mem_cons, List.not_mem_nil, or_false] at hi
        rcases hi with rfl | rfl <;> rfl
    exact ((hleft.trans hright).trans hmiddle).trans (truth_closed (fun _ => rfl) htruth)
  | .logic n op l r, leaves, a, b, hc => by
    obtain ⟨rfl, k, k', hl, hr, hcode, htruth⟩ := hc
    have hleft := operand_closed hl fun k h => expr_closed him h
    have hright := operand_closed hr fun k h => expr_closed him h
    have hlogic : Closed m k' (k' + 1) := by
      cases op with
      | and => exact .plain hcode rfl
      | or => exact .plain hcode rfl
    exact ((hleft.trans hright).trans hlogic).trans (truth_closed (fun _ => rfl) htruth)
  | .not n x, leaves, a, b, hc => by
    obtain ⟨rfl, k, hx, htruth⟩ := hc
    have hoperand := operand_closed hx fun k h => expr_closed him h
    exact hoperand.trans (truth_closed (fun _ => rfl) htruth)
  | .index n x is, leaves, a, b, hc => by
    obtain ⟨rfl, y, i, k, -, hload, hargs, hi, hcode, rfl⟩ := hc
    refine ((load_closed y.slot hload).trans (args_closed him hargs)).trans ?_
    rcases elementInstr_cases hi with ⟨-, rfl | rfl⟩ | rfl
    · exact .plain hcode rfl
    · exact .plain hcode rfl
    · exact .plain hcode rfl
  | .call n f args, leaves, a, b, hc => by
    obtain ⟨targets, code, k, hplan, hargs, hcode, rfl⟩ := hc
    refine (args_closed him hargs).trans (codeAt_closed hcode fun i hi => ?_)
    obtain ⟨-, ⟨rfl, -⟩ | ⟨j, rfl, -, ht, -⟩⟩ := callPlan_effect him hplan
    · cases hi
    · rw [List.mem_singleton.mp hi]
      exact ht
  | .newArray n e dims, leaves, a, b, hc => by
    obtain ⟨rfl, k, hargs, -, hcode, rfl⟩ := hc
    exact (args_closed him hargs).trans (.plain hcode rfl)

theorem args_closed (him : ImageOf image M fs) :
    ∀ {args : List Expr} {targets : List Ty} {a b : Nat},
      ArgsCode M m image.strings visible targets args a b → Closed m a b
  | [], targets, a, b, hc => by
    obtain rfl : b = a := by simpa [ArgsCode] using hc
    exact .nil _
  | e :: es, [], a, b, hc => by
    obtain rfl : b = a := hc
    exact .nil _
  | e :: es, t :: ts, a, b, hc => by
    obtain ⟨k, he, hes⟩ := hc
    exact (operand_closed he fun k h => expr_closed him h).trans (args_closed him hes)

end

theorem as_closed (him : ImageOf image M fs) {e : Expr} {target : Ty} {a b : Nat}
    (hc : AsCode M m image.strings visible e target a b) : Closed m a b :=
  operand_closed hc fun _ h => expr_closed him h

end

/-! ### Statements -/

section

variable {image : Image} {M : Methods} {fs : List FunctionDecl} {m : Method} {returnType : Ty}
  {p q : Point}

/-- What stands around a body of a statement branches to positions around it. -/
theorem StmtCode.around (him : ImageOf image M fs) {s : Stmt}
    (h : StmtCode M m image.strings returnType p s q)
    (hclosed : ∀ body ∈ s.bodies, ∀ c e, StmtsCode M m image.strings returnType c body e →
      Closed m c.pos e.pos)
    {j : Nat} {body : List Stmt} (hj : s.bodies[j]? = some body) :
    ∃ c e, BodyCode M m image.strings returnType p s j body c ∧
      StmtsCode M m image.strings returnType c body e ∧
      ∀ R : Nat → Nat → Prop,
        (∀ pc t, (p.pos ≤ t ∧ t < q.pos) ∧ (t < c.pos ∨ e.pos ≤ t) → R pc t) →
          JumpsTo m R p.pos c.pos ∧ JumpsTo m R e.pos q.pos := by
  have hone : ∀ {only : List Stmt}, [only][j]? = some body → j = 0 ∧ only = body := by
    intro only honly
    rw [List.getElem?_singleton, Option.ite_none_right_eq_some, Option.some.injEq] at honly
    exact honly
  -- The markers that branches go to stand right before a body or behind it, never in it.
  cases s with
  | ifThen span cond body' =>
    obtain ⟨rfl, rfl⟩ := hone hj
    obtain ⟨yes, stop, k, e, hcond, hbranch, hjump, hyes, hbody, hstop, rfl⟩ := h
    have hfirst := as_closed him hcond
    have hlow := hfirst.le
    have hhigh := (hclosed body' (by simp [Stmt.bodies]) _ _ hbody).le
    refine ⟨_, e, .ifThen hcond hbranch hjump hyes.1, hbody, fun R hR => ⟨?_, .plain hstop.1 rfl⟩⟩
    dsimp only at hR hhigh ⊢
    refine (hfirst.jumpsTo fun pc t _ ht => hR pc t (by omega)).trans ?_
    refine (JumpsTo.branch hbranch rfl hyes.2 (hR _ _ (by omega))).trans ?_
    exact (JumpsTo.branch hjump rfl hstop.2 (hR _ _ (by omega))).trans (.plain hyes.1 rfl)
  | ifElse span cond body' other =>
    obtain ⟨yes, stop, k, e, e', hcond, hbranch, hother, hjump, hyes, hbody, hstop, rfl⟩ := h
    have hfirst := as_closed him hcond
    have hlow := hfirst.le
    have hmiddle := hclosed other (by simp [Stmt.bodies]) _ _ hother
    have hlast := hclosed body' (by simp [Stmt.bodies]) _ _ hbody
    have hmid := hmiddle.le
    have hhigh := hlast.le
    cases j with
    | zero =>
      obtain rfl := Option.some.inj hj
      refine ⟨_, e', .ifElse hcond hbranch hother hjump hyes.1, hbody,
        fun R hR => ⟨?_, .plain hstop.1 rfl⟩⟩
      dsimp only at hR hmiddle hlast hmid hhigh ⊢
      refine (hfirst.jumpsTo fun pc t _ ht => hR pc t (by omega)).trans ?_
      refine (JumpsTo.branch hbranch rfl hyes.2 (hR _ _ (by omega))).trans ?_
      refine (hmiddle.jumpsTo fun pc t _ ht => hR pc t (by omega)).trans ?_
      exact (JumpsTo.branch hjump rfl hstop.2 (hR _ _ (by omega))).trans (.plain hyes.1 rfl)
    | succ j =>
      cases j with
      | zero =>
        obtain rfl := Option.some.inj hj
        refine ⟨_, e, .other hcond hbranch, hother, fun R hR => ⟨?_, ?_⟩⟩
        all_goals dsimp only at hR hmiddle hlast hmid hhigh ⊢
        · refine (hfirst.jumpsTo fun pc t _ ht => hR pc t (by omega)).trans ?_
          exact .branch hbranch rfl hyes.2 (hR _ _ (by omega))
        · refine (JumpsTo.branch hjump rfl hstop.2 (hR _ _ (by omega))).trans ?_
          refine JumpsTo.trans (.plain hyes.1 rfl) ?_
          exact (hlast.jumpsTo fun pc t _ ht => hR pc t (by omega)).trans (.plain hstop.1 rfl)
      | succ j => cases hj
  | «while» span cond body' =>
    obtain ⟨rfl, rfl⟩ := hone hj
    obtain ⟨test, yes, stop, k, e, htest, hcond, hbranch, hjump, hyes, hbody, hback, hstop, rfl⟩ := h
    have hfirst := as_closed him hcond
    have hlow := hfirst.le
    have hhigh := (hclosed body' (by simp [Stmt.bodies]) _ _ hbody).le
    refine ⟨_, e, .while htest.1 hcond hbranch hjump hyes.1, hbody, fun R hR => ⟨?_, ?_⟩⟩
    all_goals dsimp only at hR hhigh ⊢
    · refine JumpsTo.trans (.plain htest.1 rfl) ?_
      refine (hfirst.jumpsTo fun pc t _ ht => hR pc t (by omega)).trans ?_
      refine (JumpsTo.branch hbranch rfl hyes.2 (hR _ _ (by omega))).trans ?_
      exact (JumpsTo.branch hjump rfl hstop.2 (hR _ _ (by omega))).trans (.plain hyes.1 rfl)
    · exact (JumpsTo.branch hback rfl htest.2 (hR _ _ (by omega))).trans (.plain hstop.1 rfl)
  | doWhile span body' cond =>
    obtain ⟨rfl, rfl⟩ := hone hj
    obtain ⟨again, test, stop, e, k, hagain, hbody, htest, hcond, hbranch, hstop, rfl⟩ := h
    have hlast := as_closed him hcond
    have hlow := (hclosed body' (by simp [Stmt.bodies]) _ _ hbody).le
    have hhigh := hlast.le
    refine ⟨_, e, .doWhile hagain.1, hbody, fun R hR => ⟨.plain hagain.1 rfl, ?_⟩⟩
    dsimp only at hR hlow ⊢
    refine JumpsTo.trans (.plain htest rfl) ?_
    refine (hlast.jumpsTo fun pc t _ ht => hR pc t (by omega)).trans ?_
    exact (JumpsTo.branch hbranch rfl hagain.2 (hR _ _ (by omega))).trans (.plain hstop rfl)
  | block span body' =>
    obtain ⟨rfl, rfl⟩ := hone hj
    obtain ⟨e, hbody, rfl⟩ := h
    exact ⟨p, e, .block, hbody, fun R hR => ⟨.nil _, .nil _⟩⟩
  | _ => cases hj

theorem StmtCode.closed_of_body (him : ImageOf image M fs) {s : Stmt}
    (h : StmtCode M m image.strings returnType p s q)
    (hclosed : ∀ body ∈ s.bodies, ∀ c e, StmtsCode M m image.strings returnType c body e →
      Closed m c.pos e.pos)
    {body : List Stmt} (hj : s.bodies[0]? = some body) : Closed m p.pos q.pos := by
  obtain ⟨c, e, -, hbody, haround⟩ := h.around him hclosed hj
  obtain ⟨hbefore, hafter⟩ := haround (fun _ t => p.pos ≤ t ∧ t < q.pos) fun _ _ ht => ht.1
  have hinside := hclosed body (List.mem_of_getElem? hj) c e hbody
  have hlow := hbefore.le
  have hhigh := hafter.le
  exact (hbefore.trans (hinside.jumpsTo fun pc t _ ht => by omega)).trans hafter

mutual

theorem stmt_closed (him : ImageOf image M fs) :
    ∀ {s : Stmt} {p q : Point}, StmtCode M m image.strings returnType p s q →
      Closed m p.pos q.pos
  | .expr _ e, p, q, hc => by
    obtain ⟨leaves, k, b, he, hd, rfl⟩ := hc
    exact (expr_closed him he).trans (discard_closed hd)
  | .decl _ x ty none, p, q, hc => by
    obtain ⟨-, rfl⟩ := hc
    exact .nil _
  | .decl _ x ty (some e), p, q, hc => by
    obtain ⟨k, he, -, hi, rfl⟩ := hc
    exact (as_closed him he).trans (.plain hi rfl)
  | .assign _ x _ value, p, q, hc => by
    obtain ⟨y, k, -, he, hi, rfl⟩ := hc
    exact (as_closed him he).trans (store_closed y.slot hi)
  | .assignElement _ x is _ value, p, q, hc => by
    obtain ⟨y, element, k, k', -, -, hload, hargs, he, hi, rfl⟩ := hc
    have hoperands := (load_closed y.slot hload).trans (args_closed him hargs)
    refine (hoperands.trans (as_closed him he)).trans (.plain hi ?_)
    split <;> rfl
  | .ifThen _ cond body, p, q, hc =>
    have hbody : ∀ c e, StmtsCode M m image.strings returnType c body e → Closed m c.pos e.pos :=
      fun c e h => stmts_closed him h
    StmtCode.closed_of_body him hc (fun ss hss => List.mem_singleton.mp hss ▸ hbody) rfl
  | .ifElse _ cond body other, p, q, hc =>
    have hbody : ∀ c e, StmtsCode M m image.strings returnType c body e → Closed m c.pos e.pos :=
      fun c e h => stmts_closed him h
    have hother : ∀ c e, StmtsCode M m image.strings returnType c other e → Closed m c.pos e.pos :=
      fun c e h => stmts_closed him h
    StmtCode.closed_of_body him hc (fun ss hss => (List.mem_pair.mp hss).elim
      (fun heq => heq ▸ hbody) (fun heq => heq ▸ hother)) rfl
  | .while _ cond body, p, q, hc =>
    have hbody : ∀ c e, StmtsCode M m image.strings returnType c body e → Closed m c.pos e.pos :=
      fun c e h => stmts_closed him h
    StmtCode.closed_of_body him hc (fun ss hss => List.mem_singleton.mp hss ▸ hbody) rfl
  | .doWhile _ body cond, p, q, hc =>
    have hbody : ∀ c e, StmtsCode M m image.strings returnType c body e → Closed m c.pos e.pos :=
      fun c e h => stmts_closed him h
    StmtCode.closed_of_body him hc (fun ss hss => List.mem_singleton.mp hss ▸ hbody) rfl
  | .ret _ none, p, q, hc => by
    obtain ⟨hi, rfl⟩ := hc
    exact .plain hi rfl
  | .ret _ (some value), p, q, hc => by
    unfold StmtCode at hc
    split at hc
    · obtain ⟨k, he, hi, rfl⟩ := hc
      exact (as_closed him he).trans (.plain hi rfl)
    · obtain ⟨leaves, k, b, he, hd, hi, rfl⟩ := hc
      exact ((expr_closed him he).trans (discard_closed hd)).trans (.plain hi rfl)
  | .block _ body, p, q, hc =>
    have hbody : ∀ c e, StmtsCode M m image.strings returnType c body e → Closed m c.pos e.pos :=
      fun c e h => stmts_closed him h
    StmtCode.closed_of_body him hc (fun ss hss => List.mem_singleton.mp hss ▸ hbody) rfl

theorem stmts_closed (him : ImageOf image M fs) :
    ∀ {ss : List Stmt} {p q : Point}, StmtsCode M m image.strings returnType p ss q →
      Closed m p.pos q.pos
  | [], p, q, hc => by
    obtain rfl : q = p := hc
    exact .nil _
  | s :: rest, p, q, hc => by
    obtain ⟨e, hs, hrest⟩ := hc
    exact (stmt_closed him hs).trans (stmts_closed him hrest)

end

/-! ### A statement among others -/

/-- The branches of the code around a piece go to positions around it. -/
structure Sealed (m : Method) (a b c e : Nat) : Prop where
  before : JumpsTo m (fun _ t => t < c ∨ e ≤ t) a c
  after : JumpsTo m (fun _ t => t < c ∨ e ≤ t) e b

theorem Sealed.nil {a b : Nat} : Sealed m a b a b :=
  ⟨.nil a, .nil b⟩

theorem Sealed.trans {a b c e c' e' : Nat} (h : Sealed m a b c e) (h' : Sealed m c e c' e') :
    Sealed m a b c' e' := by
  have hlow := h'.before.le
  have hhigh := h'.after.le
  constructor
  · exact (h.before.mono fun pc t _ _ ht => by omega).trans h'.before
  · exact h'.after.trans (h.after.mono fun pc t _ _ ht => by omega)

/-- The other statements of a list do not branch into the code of one of them. -/
theorem StmtsCode.sealed (him : ImageOf image M fs) {ss : List Stmt} {k : Nat} {s : Stmt}
    (hk : ss[k]? = some s) : ∀ {p q : Point}, StmtsCode M m image.strings returnType p ss q →
      ∃ o e, StmtsCode M m image.strings returnType p (ss.take k) o ∧
        StmtCode M m image.strings returnType o s e ∧ Sealed m p.pos q.pos o.pos e.pos := by
  induction ss generalizing k with
  | nil => cases hk
  | cons s' rest ih =>
    rintro p q ⟨e, hs, hrest⟩
    cases k with
    | zero =>
      obtain rfl := Option.some.inj hk
      exact ⟨p, e, rfl, hs, .nil _, (stmts_closed him hrest).jumpsTo fun _ _ _ ht => .inr ht.1⟩
    | succ k =>
      obtain ⟨o, e', ho, he', hsealed⟩ := ih hk hrest
      have hlow := hsealed.before.le
      refine ⟨o, e', ⟨e, hs, ho⟩, he', ?_, hsealed.after⟩
      exact ((stmt_closed him hs).jumpsTo fun pc t _ ht => .inl (by omega)).trans hsealed.before

/-- Every statement inside one that is laid out lies somewhere, and control does not branch into its
code. -/
theorem StmtCode.sealed (him : ImageOf image M fs) {route : Route} {t : Stmt} :
    ∀ {s : Stmt} {p q : Point}, StmtCode M m image.strings returnType p s q →
      s.at? route = some t →
      ∃ a b, Lies M m image.strings returnType route p s a t b ∧
        Sealed m p.pos q.pos a.pos b.pos := by
  induction route with
  | nil =>
    intro s p q h hat
    obtain rfl := Option.some.inj hat
    exact ⟨p, q, ⟨rfl, rfl, h⟩, .nil⟩
  | cons step route ih =>
    obtain ⟨j, k⟩ := step
    intro s p q h hat
    obtain ⟨u, hu, hat⟩ := Option.bind_eq_some_iff.mp hat
    obtain ⟨body, hbody, hu⟩ := Option.bind_eq_some_iff.mp hu
    obtain ⟨c, e, hc, hcode, haround⟩ :=
      h.around him (fun _ _ _ _ hss => stmts_closed him hss) hbody
    obtain ⟨hbefore, hafter⟩ := haround _ fun _ _ ht => ht.2
    obtain ⟨o, e', ho, hstmt, hlist⟩ := hcode.sealed him hu
    obtain ⟨a, b, hlies, hinner⟩ := ih hstmt hat
    have hbodies : Sealed m p.pos q.pos c.pos e.pos := ⟨hbefore, hafter⟩
    exact ⟨a, b, ⟨body, c, o, u, hc, ho, hu, hlies⟩, (hbodies.trans hlist).trans hinner⟩

end

end Quill.Lowering
