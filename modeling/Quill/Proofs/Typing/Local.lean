import Quill.Proofs.Typing.Mild
import Quill.Proofs.Typing.Visits

/-! # Errors stay local

If an expression of a program without reports is replaced by one whose own check fails, the reports
of that check are all that there are (`checkFresh_local`).

The proof goes outwards from the place, frame by frame: through the parts of an expression
(`ExprAdds`), its statement (`StmtAdds`), the blocks around it (`BlockAdds`) and the function. -/

namespace Quill.Typing

open Report (Log Finding)
open Scope (Table)

/-! ### Steps of a statement -/

section

variable {c : Setting} {scope : Nat} {st : State} {x y : Expr} {D : Log}

/-- What an expression of a statement sees. -/
def State.sight (st : State) (c : Setting) (scope : Nat) : Sight := ⟨st.table, scope, c.file⟩

theorem State.infer_local (hc : (st.infer c scope x).2.log = .empty) :
    (Typing.infer (st.sight c scope) .empty x).2 = .empty ∧
      ∀ {D y}, ExprAdds (st.sight c scope) D x y →
        (st.infer c scope y).2 = (st.infer c scope x).2.behind D ∧
          Mild (st.infer c scope x).1.ty (st.infer c scope y).1.ty := by
  have heq : ∀ e, st.infer c scope e = ((Typing.infer (st.sight c scope) .empty e).1,
      ⟨st.table, st.log ++ (Typing.infer (st.sight c scope) .empty e).2⟩) := by
    intro e
    rw [State.infer]
    dsimp only
    rw [infer_eq]
    rfl
  rw [heq] at hc
  obtain ⟨hlog, hx⟩ := Log.append_eq_empty_iff.mp hc
  refine ⟨hx, fun {D y} h => ?_⟩
  rw [heq, heq]
  refine ⟨?_, h.mild⟩
  rw [hx, h.log, hlog, State.behind, Log.append_empty, Log.append_empty, Log.empty_append]

theorem State.expectAssignable_eq {target : Ty} {context : String}
    (h : target = .undefined ∨ x.ty.assignableTo target = true) :
    st.expectAssignable c x target context = st := if_pos (by simpa using h)

theorem State.expectAssignable_mild {target : Ty} {context : String}
    (hc : (st.expectAssignable c x target context).log = .empty) (h : Mild x.ty y.ty) :
    st.expectAssignable c y target context = st.expectAssignable c x target context := by
  have hx := (State.expectAssignable_clean (clean_iff.mpr hc)).2
  rw [State.expectAssignable_eq hx, State.expectAssignable_eq (h.assignableTo hx)]

theorem State.assign_mild {name : String} {target : Span}
    (hc : (st.assign c scope name target x).log = .empty) (h : Mild x.ty y.ty) :
    st.assign c scope name target y = st.assign c scope name target x := by
  unfold State.assign at hc ⊢
  split
  · rfl
  · next i hi =>
    rw [hi] at hc
    dsimp only at hc ⊢
    rw [State.expectAssignable_mild hc h]

theorem State.assignElement_mild {a : String} {is : List Expr} {target : Span}
    (hc : (st.assignElement c scope a is target x).2.log = .empty) (h : Mild x.ty y.ty) :
    st.assignElement c scope a is target y = st.assignElement c scope a is target x := by
  unfold State.assignElement at hc ⊢
  dsimp only at hc ⊢
  split
  · next i hi =>
    rw [hi] at hc
    dsimp only at hc
    split
    · rfl
    · next hne =>
      rw [if_neg hne] at hc
      rw [State.expectAssignable_mild hc h]
  · next hnone =>
    rw [hnone] at hc
    rw [State.expectAssignable_mild hc h]

/-- A check of an annotated expression: it adds its reports behind those that are there, and if it
has none, it does the same with an expression whose type is not known. -/
structure Follows (check : Expr → State → State) : Prop where
  behind : ∀ e st D, check e (st.behind D) = (check e st).behind D
  mild : ∀ {st x y}, (check x st).log = .empty → Mild x.ty y.ty → check y st = check x st

/-- The rest of a statement, which tells whether it returns: it adds its reports behind those that
are there. -/
def Passes (rest : State → Bool × State) : Prop :=
  ∀ (st : State) (D : Log), rest (st.behind D) = ((rest st).1, (rest st).2.behind D)

theorem passes_nothing (r : Bool) : Passes fun st => (r, st) := fun _ _ => rfl

theorem Passes.log_empty {rest : State → Bool × State} (h : Passes rest)
    (hc : (rest st).2.log = .empty) : st.log = .empty := by
  have heq : st = State.behind st.log ⟨st.table, .empty⟩ := (State.behind_empty _ _).symm
  rw [heq, h] at hc
  exact (Log.append_eq_empty_iff.mp hc).1

/-- An expression of a statement, the check of its annotated form, and the rest. -/
theorem Follows.local {check : Expr → State → State} {rest : State → Bool × State}
    (h : Follows check) (hrest : Passes rest)
    (hc : (rest (check (st.infer c scope x).1 (st.infer c scope x).2)).2.log = .empty) :
    (Typing.infer (st.sight c scope) .empty x).2 = .empty ∧
      ∀ {D y}, ExprAdds (st.sight c scope) D x y →
        rest (check (st.infer c scope y).1 (st.infer c scope y).2) =
          ((rest (check (st.infer c scope x).1 (st.infer c scope x).2)).1,
            (rest (check (st.infer c scope x).1 (st.infer c scope x).2)).2.behind D) := by
  have hcheck := hrest.log_empty hc
  have hpasses : Passes fun st' => (true, check (st.infer c scope x).1 st') :=
    fun st' D => congrArg (Prod.mk true) (h.behind _ st' D)
  obtain ⟨hx, hadds⟩ := State.infer_local (hpasses.log_empty hcheck)
  refine ⟨hx, fun hxy => ?_⟩
  obtain ⟨hst, hmild⟩ := hadds hxy
  rw [hst, h.behind, h.mild hcheck hmild, hrest]

/-! ### The checks of the statements -/

theorem follows_nothing : Follows fun _ st => st where
  behind _ _ _ := rfl
  mild _ _ := rfl

theorem follows_assign (c : Setting) (scope : Nat) (name : String) (target : Span) :
    Follows fun e st => st.assign c scope name target e where
  behind e st D := st.assign_behind D c scope name target e
  mild hc hxy := State.assign_mild hc hxy

theorem follows_assignElement (c : Setting) (scope : Nat) (a : String) (is : List Expr)
    (target : Span) : Follows fun e st => (st.assignElement c scope a is target e).2 where
  behind e st D := congrArg Prod.snd (State.assignElement_behind D st c scope a is target e)
  mild hc hxy := congrArg Prod.snd (State.assignElement_mild hc hxy)

/-- The check of an annotated condition. -/
def askBoolean (c : Setting) (e : Expr) (st : State) : State :=
  if e.ty = .boolean ∨ e.ty = .undefined then st
  else st.add c (.invalidCondition e.ty.name) e.span

theorem State.condition_snd (st : State) (c : Setting) (scope : Nat) (e : Expr) :
    (st.condition c scope e).2 = askBoolean c (st.infer c scope e).1 (st.infer c scope e).2 := by
  unfold State.condition askBoolean
  dsimp only
  split <;> rfl

theorem follows_askBoolean (c : Setting) : Follows (askBoolean c) where
  behind e st D := by
    unfold askBoolean
    split
    · rfl
    · rw [State.add_behind]
  mild {st x y} hc hxy := by
    unfold askBoolean at hc ⊢
    split at hc
    · next hx =>
      have hy : y.ty = .boolean ∨ y.ty = .undefined := by
        rcases hxy with h | h
        · exact .inr h
        · rw [h]
          exact hx
      rw [if_pos hx, if_pos hy]
    · exact absurd (clean_iff.mpr hc) (State.not_clean_add _ _ _ _)

/-- The check of an annotated initializer, with which the variable is declared. -/
def declareWith (c : Setting) (scope : Nat) (span : Span) (name : String) (ty : Ty) (e : Expr)
    (st : State) : State :=
  match st.table.declareIdentifier? scope name ty with
  | none => st.add c (.duplicateIdentifier name) span
  | some (table, id) =>
    let st := { st with table }
    let st := if ty.isVariable then st.expectAssignable c e ty "initializer" else st
    { st with table := st.table.markAssigned id scope }

theorem State.declare_snd (st : State) (c : Setting) (scope : Nat) (span : Span) (name : String)
    (ty : Ty) :
    ∃ st₁ : State, st₁.sight c scope = st.sight c scope ∧
      ∀ e, (st.declare c scope span name ty (some e)).2 =
        declareWith c scope span name ty (st₁.infer c scope e).1 (st₁.infer c scope e).2 := by
  refine ⟨if ty.isVariable then st else st.add c (.invalidVariableType name ty.name) span, ?_, ?_⟩
  · split <;> rfl
  · intro e
    unfold State.declare declareWith
    dsimp only
    generalize (if ty.isVariable then st
      else st.add c (.invalidVariableType name ty.name) span) = st₁
    cases (st₁.infer c scope e).2.table.declareIdentifier? scope name ty with
    | none => rfl
    | some r => rfl

theorem follows_declareWith (c : Setting) (scope : Nat) (span : Span) (name : String) (ty : Ty) :
    Follows (declareWith c scope span name ty) where
  behind e st D := by
    unfold declareWith
    rw [State.table_behind]
    split
    · rw [State.add_behind]
    · dsimp only
      rw [State.withTable_behind]
      split
      · rw [State.expectAssignable_behind]
        rfl
      · rfl
  mild {st x y} hc hxy := by
    unfold declareWith at hc ⊢
    split
    · rfl
    · next table id hd =>
      rw [hd] at hc
      dsimp only at hc ⊢
      split
      · next hv =>
        rw [if_pos hv] at hc
        rw [State.expectAssignable_mild hc hxy]
      · rfl

/-- The check of the annotated value of a `return`. -/
def giveBack (c : Setting) (e : Expr) (st : State) : State :=
  let context := s!"return value of `{c.function}`"
  if c.returnType = .void then
    if e.ty.isValue then st.add c (.typeMismatch "Void" e.ty.name context) e.span else st
  else st.expectAssignable c e c.returnType context

theorem State.ret_snd (st : State) (c : Setting) (scope : Nat) (span : Span) (e : Expr) :
    (st.ret c scope span (some e)).2 =
      giveBack c (st.infer c scope e).1 (st.infer c scope e).2 := by
  unfold State.ret giveBack
  dsimp only
  split
  · split <;> rfl
  · rfl

theorem follows_giveBack (c : Setting) : Follows (giveBack c) where
  behind e st D := by
    unfold giveBack
    dsimp only
    split
    · split
      · rw [State.add_behind]
      · rfl
    · rw [State.expectAssignable_behind]
  mild {st x y} hc hxy := by
    unfold giveBack at hc ⊢
    dsimp only at hc ⊢
    split
    · next hvoid =>
      rw [if_pos hvoid] at hc
      split at hc
      · exact absurd (clean_iff.mpr hc) (State.not_clean_add _ _ _ _)
      · next hx =>
        have hy : ¬ y.ty.isValue = true := by
          rcases hxy with h | h
          · rw [h]
            decide
          · rw [h]
            exact hx
        rw [if_neg hx, if_neg hy]
    · next hvoid =>
      rw [if_neg hvoid] at hc
      rw [State.expectAssignable_mild hc hxy]

/-- The check of an assignment to an element, whose target is annotated like an expression that
reads the element. -/
def storeElement (c : Setting) (scope : Nat) (a : String) (target : Span) (value e : Expr)
    (st : State) : State :=
  match st.table.resolveIdentifier? scope a with
  | some i =>
    if i.ty = .string then st.add c (.invalidOperand "element assignment" "String") target
    else st.expectAssignable c value e.ty "element assignment"
  | none => st.expectAssignable c value e.ty "element assignment"

theorem State.assignElement_snd (st : State) (c : Setting) (scope : Nat) (a : String)
    (is : List Expr) (target : Span) (value : Expr) :
    (st.assignElement c scope a is target value).2 =
      storeElement c scope a target value (st.infer c scope (.index ⟨.undefined, target⟩ a is)).1
        (st.infer c scope (.index ⟨.undefined, target⟩ a is)).2 := by
  have hindex : st.infer c scope (.index ⟨.undefined, target⟩ a is) =
      (.index ⟨(inferElement (st.sight c scope) st.log a is target).1, target⟩ a
        (inferElement (st.sight c scope) st.log a is target).2.1,
        ⟨st.table, (inferElement (st.sight c scope) st.log a is target).2.2⟩) := by
    unfold State.infer inferElement State.sight
    simp only [Typing.infer]
  rw [hindex]
  unfold State.assignElement storeElement
  dsimp only
  cases st.table.resolveIdentifier? scope a with
  | none => rfl
  | some i =>
    dsimp only
    split <;> rfl

theorem follows_storeElement (c : Setting) (scope : Nat) (a : String) (target : Span)
    (value : Expr) : Follows (storeElement c scope a target value) where
  behind e st D := by
    unfold storeElement
    rw [State.table_behind]
    split
    · split
      · rw [State.add_behind]
      · rw [State.expectAssignable_behind]
    · rw [State.expectAssignable_behind]
  mild {st x y} hc hxy := by
    have hstore : ∀ context, (st.expectAssignable c value x.ty context).log = .empty →
        st.expectAssignable c value y.ty context = st.expectAssignable c value x.ty context := by
      intro context hclean
      have hx := (State.expectAssignable_clean (clean_iff.mpr hclean)).2
      rcases hxy with h | h
      · rw [State.expectAssignable_eq hx, State.expectAssignable_eq (.inl h)]
      · rw [h]
    unfold storeElement at hc ⊢
    split
    · next i hi =>
      rw [hi] at hc
      dsimp only at hc
      split
      · rfl
      · next hne =>
        rw [if_neg hne] at hc
        exact hstore _ hc
    · next hnone =>
      rw [hnone] at hc
      exact hstore _ hc

end

/-! ### Statements and blocks -/

/-- Checking the second statement instead of the first adds the reports `D`, and nothing else is
different afterwards. -/
def StmtAdds (c : Setting) (D : Log) (scope : Nat) (st : State) (s s' : Stmt) : Prop :=
  (checkStmt c scope st s').2 =
    ((checkStmt c scope st s).2.1, (checkStmt c scope st s).2.2.behind D)

/-- Checking the second block instead of the first adds the reports `D`, and nothing else is
different afterwards. -/
def BlockAdds (c : Setting) (D : Log) (scope : Nat) (st : State) (ss ss' : List Stmt) : Prop :=
  (checkStmts c scope st [] false ss').2 =
    ((checkStmts c scope st [] false ss).2.1, (checkStmts c scope st [] false ss).2.2.behind D)

/-- The scope and the state in which checking comes to the body in a frame. -/
def enterFrame (c : Setting) (scope : Nat) (st : State) (F : BlockFrame) : Nat × State :=
  enter c scope st (F.plug []) F.index

/-- The scope and the state in which checking comes to the innermost block of some layers. -/
def enterLayers (c : Setting) (scope : Nat) (st : State) : List Layer → Nat × State
  | [] => (scope, st)
  | layer :: layers =>
    let inner := enterFrame c scope (checkStmts c scope st [] false layer.before).2.2 layer.frame
    enterLayers c inner.1 inner.2 layers

/-- A body that is checked after a condition. -/
def thenBody (c : Setting) (scope : Nat) (body : List Stmt) (st : State) : Bool × State :=
  (false, (checkStmts c (st.inner scope).1 (st.inner scope).2 [] false body).2.2)

/-- The second body of a statement, after the first in the scope `one`. -/
def thenOther (c : Setting) (scope one : Nat) (returns : Bool) (other : List Stmt) (st : State) :
    Bool × State :=
  let two := st.inner scope
  let second := checkStmts c two.1 two.2 [] false other
  (returns && second.2.1,
    { second.2.2 with table := second.2.2.table.promoteBoth one two.1 scope })

/-- Two bodies that are checked after a condition. -/
def thenBodies (c : Setting) (scope : Nat) (body other : List Stmt) (st : State) : Bool × State :=
  let one := st.inner scope
  let first := checkStmts c one.1 one.2 [] false body
  thenOther c scope one.1 first.2.1 other first.2.2

theorem State.inner_behind (D : Log) (st : State) (scope : Nat) :
    (st.behind D).inner scope = ((st.inner scope).1, (st.inner scope).2.behind D) := rfl

theorem passes_thenBody (c : Setting) (scope : Nat) (body : List Stmt) :
    Passes (thenBody c scope body) := by
  intro st D
  simp only [thenBody, State.inner_behind, checkStmts_behind]

theorem passes_thenOther (c : Setting) (scope one : Nat) (returns : Bool) (other : List Stmt) :
    Passes (thenOther c scope one returns other) := by
  intro st D
  simp only [thenOther, State.inner_behind, checkStmts_behind]
  rfl

theorem passes_thenBodies (c : Setting) (scope : Nat) (body other : List Stmt) :
    Passes (thenBodies c scope body other) := by
  intro st D
  simp only [thenBodies, State.inner_behind, checkStmts_behind, passes_thenOther c _ _ _ other _ D]

section

variable {c : Setting} {scope : Nat} {st : State} {x : Expr} {D : Log}

/-- A statement that is checked by the check of an annotated expression and a rest. -/
theorem Follows.stmt {check : Expr → State → State} {rest : State → Bool × State}
    (h : Follows check) (hrest : Passes rest) (plug : Expr → Stmt) (st₁ : State)
    (heq : ∀ e, (checkStmt c scope st (plug e)).2 =
      rest (check (st₁.infer c scope e).1 (st₁.infer c scope e).2))
    (hc : (checkStmt c scope st (plug x)).2.2.log = .empty) :
    (infer (st₁.sight c scope) .empty x).2 = .empty ∧
      ∀ {D y}, ExprAdds (st₁.sight c scope) D x y → StmtAdds c D scope st (plug x) (plug y) := by
  rw [heq] at hc
  obtain ⟨hx, hadds⟩ := h.local hrest hc
  refine ⟨hx, fun hxy => ?_⟩
  unfold StmtAdds
  rw [heq, heq]
  exact hadds hxy

theorem checkStmt_plug_local (F : StmtFrame)
    (hc : (checkStmt c scope st (F.plug x)).2.2.log = .empty) :
    (infer ((lookupState c scope st (F.plug x)).sight c scope) .empty x).2 = .empty ∧
      ∀ {D y}, ExprAdds ((lookupState c scope st (F.plug x)).sight c scope) D x y →
        StmtAdds c D scope st (F.plug x) (F.plug y) := by
  cases F with
  | expr span => exact follows_nothing.stmt (passes_nothing false) (.expr span) st (fun _ => rfl) hc
  | decl span name ty =>
    obtain ⟨st₁, hsight, hsnd⟩ := st.declare_snd c scope span name ty
    have hlocal := (follows_declareWith c scope span name ty).stmt (passes_nothing false)
      (fun e => .decl span name ty (some e)) st₁ (fun e => congrArg (Prod.mk false) (hsnd e)) hc
    rw [hsight] at hlocal
    exact hlocal
  | assign span name target =>
    exact (follows_assign c scope name target).stmt (passes_nothing false)
      (.assign span name target) st (fun _ => rfl) hc
  | elementIndex span a before after target value =>
    have heq : ∀ is, (checkStmt c scope st (.assignElement span a is target value)).2 = (false,
        storeElement c scope a target (st.infer c scope value).1
          ((st.infer c scope value).2.infer c scope (.index ⟨.undefined, target⟩ a is)).1
          ((st.infer c scope value).2.infer c scope (.index ⟨.undefined, target⟩ a is)).2) :=
      fun is => congrArg (Prod.mk false) (State.assignElement_snd _ c scope a is target _)
    rw [StmtFrame.plug, heq] at hc
    obtain ⟨hindex, hadds⟩ := (follows_storeElement c scope a target
      (st.infer c scope value).1).local (passes_nothing false) hc
    -- The target is checked like an expression that reads the element.
    obtain ⟨hx, hframe⟩ := infer_plug_local (.index ⟨.undefined, target⟩ a before after) hindex
    refine ⟨hx, fun h => ?_⟩
    unfold StmtAdds StmtFrame.plug
    rw [heq, heq]
    exact hadds (hframe h)
  | elementValue span a indices target =>
    exact (follows_assignElement c scope a indices target).stmt (passes_nothing false)
      (.assignElement span a indices target) st (fun _ => rfl) hc
  | ifThen span body =>
    exact (follows_askBoolean c).stmt (passes_thenBody c scope body) (.ifThen span · body) st
      (fun e => congrArg (thenBody c scope body) (st.condition_snd c scope e)) hc
  | «while» span body =>
    exact (follows_askBoolean c).stmt (passes_thenBody c scope body) (.while span · body) st
      (fun e => congrArg (thenBody c scope body) (st.condition_snd c scope e)) hc
  | ifElse span body other =>
    exact (follows_askBoolean c).stmt (passes_thenBodies c scope body other)
      (.ifElse span · body other) st
      (fun e => congrArg (thenBodies c scope body other) (st.condition_snd c scope e)) hc
  | doWhile span body =>
    exact (follows_askBoolean c).stmt
      (passes_nothing (checkStmts c (st.inner scope).1 (st.inner scope).2 [] false body).2.1)
      (.doWhile span body) (lookupState c scope st (.doWhile span body x))
      (fun e => congrArg (Prod.mk _) (State.condition_snd _ c scope e)) hc
  | ret span =>
    exact (follows_giveBack c).stmt (passes_nothing true) (fun e => .ret span (some e)) st
      (fun e => congrArg (Prod.mk true) (st.ret_snd c scope span e)) hc

theorem BlockAdds.frame (F : BlockFrame) {ss ss' : List Stmt}
    (h : BlockAdds c D (enterFrame c scope st F).1 (enterFrame c scope st F).2 ss ss') :
    StmtAdds c D scope st (F.plug ss) (F.plug ss') := by
  unfold BlockAdds at h
  cases F with
  | ifThen span cond | «while» span cond =>
    exact congrArg (fun r : Bool × State => (false, r.2)) h
  | first span cond other =>
    have hnew := congrArg (fun r : Bool × State => thenOther c scope
      (enterFrame c scope st (.first span cond other)).1 r.1 other r.2) h
    exact hnew.trans (passes_thenOther c scope _ _ other _ D)
  | second span cond body =>
    let first := checkStmts c ((st.condition c scope cond).2.inner scope).1
      ((st.condition c scope cond).2.inner scope).2 [] false body
    exact congrArg (fun r : Bool × State => (first.2.1 && r.1,
      State.mk (r.2.table.promoteBoth ((st.condition c scope cond).2.inner scope).1
        (first.2.2.inner scope).1 scope) r.2.log)) h
  | doWhile span cond =>
    have hnew := congrArg (fun r : Bool × State => (r.1, ((State.mk (r.2.table.promote
      (st.inner scope).1 scope) r.2.log).condition c scope cond).2)) h
    refine hnew.trans (congrArg (Prod.mk _) ?_)
    rw [State.withTable_behind, State.condition_behind]
    rfl
  | block span =>
    exact congrArg (fun r : Bool × State =>
      (r.1, State.mk (r.2.table.promote (st.inner scope).1 scope) r.2.log)) h

theorem checkStmts_append_snd (c : Setting) (scope : Nat) (st : State) (before after : List Stmt) :
    (checkStmts c scope st [] false (before ++ after)).2 =
      let first := checkStmts c scope st [] false before
      let second := checkStmts c scope first.2.2 [] false after
      (first.2.1 || second.2.1, second.2.2) := by
  induction before generalizing st with
  | nil => rfl
  | cons s before ih =>
    rw [List.cons_append, checkStmts_cons, checkStmts_cons]
    dsimp only
    rw [ih, Bool.or_assoc]

theorem StmtAdds.block {before after : List Stmt} {s s' : Stmt}
    (h : StmtAdds c D scope (checkStmts c scope st [] false before).2.2 s s') :
    BlockAdds c D scope st (before ++ s :: after) (before ++ s' :: after) := by
  unfold BlockAdds StmtAdds at *
  simp only [checkStmts_append_snd, checkStmts_cons, h, checkStmts_behind]

theorem BlockAdds.layers {ss ss' : List Stmt} : ∀ {layers : List Layer} {scope : Nat} {st : State},
    BlockAdds c D (enterLayers c scope st layers).1 (enterLayers c scope st layers).2 ss ss' →
      BlockAdds c D scope st (plugLayers ss layers) (plugLayers ss' layers) := by
  intro layers
  induction layers with
  | nil => exact fun h => h
  | cons layer layers ih => exact fun h => ((ih h).frame layer.frame).block

/-! ### Places in a body -/

theorem log_empty_of_block {before after : List Stmt} {s : Stmt}
    (hc : (checkStmts c scope st [] false (before ++ s :: after)).2.2.log = .empty) :
    (checkStmt c scope (checkStmts c scope st [] false before).2.2 s).2.2.log = .empty := by
  have hafter : Passes fun st => (checkStmts c scope st [] false after).2 := by
    intro st D
    dsimp only
    rw [checkStmts_behind]
  rw [checkStmts_append_snd] at hc
  dsimp only at hc
  rw [checkStmts_cons] at hc
  exact hafter.log_empty hc

theorem log_empty_of_frame {F : BlockFrame} {ss : List Stmt}
    (hc : (checkStmt c scope st (F.plug ss)).2.2.log = .empty) :
    (checkStmts c (enterFrame c scope st F).1 (enterFrame c scope st F).2 [] false
      ss).2.2.log = .empty := by
  cases F with
  | ifThen _ _ | «while» _ _ | second _ _ _ | block _ => exact hc
  | first span cond other => exact (passes_thenOther c scope _ _ other).log_empty hc
  | doWhile span cond =>
    have hcond : Passes fun st => (true, (st.condition c scope cond).2) := by
      intro st D
      dsimp only
      rw [State.condition_behind]
    show (lookupState c scope st (.doWhile span ss cond)).log = .empty
    exact hcond.log_empty hc

theorem log_empty_of_layers {ss : List Stmt} : ∀ {layers : List Layer} {scope : Nat} {st : State},
    (checkStmts c scope st [] false (plugLayers ss layers)).2.2.log = .empty →
      (checkStmts c (enterLayers c scope st layers).1 (enterLayers c scope st layers).2 [] false
        ss).2.2.log = .empty := by
  intro layers
  induction layers with
  | nil => exact fun hc => hc
  | cons layer layers ih => exact fun hc => ih (log_empty_of_frame (log_empty_of_block hc))

/-- What the expression in a place of a body sees. -/
def spotSight (c : Setting) (start : Nat × State) (C : Spot) : Sight :=
  let (scope, st) := enterLayers c start.1 start.2 C.layers
  let st := (checkStmts c scope st [] false C.before).2.2
  (lookupState c scope st (C.frame.plug default)).sight c scope

theorem lookupState_plug (c : Setting) (scope : Nat) (st : State) (F : StmtFrame) (x y : Expr) :
    lookupState c scope st (F.plug x) = lookupState c scope st (F.plug y) := by
  cases F with
  | expr | decl | assign | elementIndex | elementValue | ifThen | ifElse | «while» | doWhile
  | ret => rfl

theorem spot_local {C : Spot} {start : Nat × State}
    (hc : (checkStmts c start.1 start.2 [] false (C.plug x)).2.2.log = .empty) {D : Log} {y : Expr}
    (h : ExprAdds (spotSight c start C) D x y) :
    BlockAdds c D start.1 start.2 (C.plug x) (C.plug y) := by
  have hstmt := log_empty_of_block (log_empty_of_layers hc)
  obtain ⟨hparts, hadds⟩ := checkStmt_plug_local C.frame hstmt
  rw [lookupState_plug c _ _ C.frame _ default] at hparts hadds
  exact (hadds ((infer_plugParts_local hparts).2 h)).block.layers

end

/-! ### Functions and programs -/

theorem checkBody_adds {file : Option String} {st : State} {f : FunctionDecl} {D : Log}
    {body : List Stmt}
    (h : BlockAdds (settingOf file f) D (st.inner Table.root).1
      (declareParams (settingOf file f) (st.inner Table.root).1 (st.inner Table.root).2 f.params)
      f.body body) :
    (checkBody file st { f with body }).2 = (checkBody file st f).2.behind D := by
  have heq : ∀ body, (checkBody file st { f with body }).2 =
      let r := (checkStmts (settingOf file f) (st.inner Table.root).1
        (declareParams (settingOf file f) (st.inner Table.root).1 (st.inner Table.root).2 f.params)
        [] false body).2
      if !r.1 && f.returnType != .void then
        r.2.add (settingOf file f) (.missingReturn f.name) f.span
      else r.2 := fun _ => rfl
  have hself := heq f.body
  unfold BlockAdds at h
  rw [heq, h]
  rw [show ({ f with body := f.body } : FunctionDecl) = f from rfl] at hself
  rw [hself]
  dsimp only
  split
  · rw [State.add_behind]
  · rfl

theorem checkBodies_append_snd (file : Option String) (ys : List (FunctionDecl × Bool)) :
    ∀ (xs : List (FunctionDecl × Bool)) (st : State),
      (checkBodies file st [] (xs ++ ys)).2 =
        (checkBodies file (checkBodies file st [] xs).2 [] ys).2 := by
  intro xs
  induction xs with
  | nil => exact fun _ => rfl
  | cons d xs ih =>
    obtain ⟨f, declared⟩ := d
    intro st
    rw [List.cons_append, checkBodies_cons, checkBodies_cons]
    exact ih _

theorem askEntry_behind (file : Option String) (D : Log) (st : State) :
    askEntry file (st.behind D) = (askEntry file st).behind D := by
  unfold askEntry
  rw [State.table_behind]
  split
  · rfl
  · exact congrArg (State.mk st.table) (addFinding_append _ _ _ _ _)

/-- A program that is checked without a report, with another body for one of its functions: every
function is declared as before, and so the bodies before it are checked as before. -/
theorem checkFresh_set {p : Program} (hc : Clean (checkFresh p).2.log) {n : Nat}
    {f : FunctionDecl} (hf : p.functions[n]? = some f) (hext : f.isExternal = false)
    (body : List Stmt) :
    (checkFresh { p with functions := p.functions.set n { f with body } }).2 =
      askEntry p.source (checkBodies p.source
        (checkBody p.source (functionState p n) { f with body }).2 []
        ((p.functions.drop (n + 1)).map (·, true))).2 := by
  have hst := checkFresh_staged hc
  have hn : n < p.functions.length := (List.getElem?_eq_some_iff.mp hf).1
  have hall : List.Forall₂ Annotates p.functions (p.functions.set n { f with body }) := by
    refine List.forall₂_iff_get.mpr ⟨(List.length_set ..).symm, fun i hi hi' => ?_⟩
    rw [List.get_eq_getElem, List.get_eq_getElem, List.getElem_set]
    split
    · next heq =>
      subst heq
      rw [(List.getElem?_eq_some_iff.mp hf).2]
      exact ⟨body, rfl⟩
    · exact ⟨_, rfl⟩
  have hfunctions : (declarations p).1 = p.functions.map (·, true) := hst.functions
  have hdecl := declarations_of_annotates (p := p)
    (q := { p with functions := p.functions.set n { f with body } }) rfl hall hfunctions
  have hstart : functionState p n = (checkBodies p.source (declarations p).2 []
      ((p.functions.take n).map (·, true))).2 := by
    rw [List.map_take, ← hfunctions]
    rfl
  have hrun : (true && !FunctionDecl.isExternal { f with body }) = true :=
    congrArg (true && !·) hext
  rw [checkFresh_eq, checkedBodies, hdecl]
  dsimp only
  rw [List.set_eq_take_append_cons_drop, if_pos hn, List.map_append, List.map_cons,
    checkBodies_append_snd, checkBodies_cons, if_pos hrun, hstart]

/-- **Errors stay local**: if in a program that is checked without a report one occurrence of an
expression is replaced by an expression whose own check gives no type, then what that check reports
is all that is reported. -/
theorem checkFresh_local {p : Program} (hc : Clean (checkFresh p).2.log) {n : Nat}
    {f : FunctionDecl} (hf : p.functions[n]? = some f) (hext : f.isExternal = false) {C : Spot}
    {e e' : Expr} (hbody : f.body = C.plug e)
    (hfails : (infer (spotSight (settingOf p.source f) (bodyState p n f) C) .empty e').1.ty =
      .undefined) :
    (checkFresh { p with functions := p.functions.set n { f with body := C.plug e' } }).2 =
      ⟨(checkFresh p).2.table,
        (infer (spotSight (settingOf p.source f) (bodyState p n f) C) .empty e').2⟩ := by
  obtain ⟨f', _, hchecks⟩ := checkFresh_checks hc hf hext
  have hclean := clean_iff.mp hchecks.runs.clean
  rw [hbody] at hclean
  have hadds := spot_local hclean ⟨rfl, .inl hfails⟩
  rw [← hbody, bodyState_eq] at hadds
  have hself : { p with functions := p.functions.set n { f with body := f.body } } = p := by
    obtain ⟨hn, hget⟩ := List.getElem?_eq_some_iff.mp hf
    rw [show ({ f with body := f.body } : FunctionDecl) = f from rfl, ← hget, List.set_getElem_self]
  have hp := checkFresh_set hc hf hext f.body
  rw [hself] at hp
  rw [checkFresh_set hc hf hext, checkBody_adds hadds, checkBodies_behind, askEntry_behind, ← hp,
    State.behind_of_empty _ _ (clean_iff.mp hc), ← bodyState_eq]

/-- A function that adds two numbers in a block. -/
def sumFunction : FunctionDecl where
  name := "main"
  params := []
  returnType := .integer
  body := [
    .decl .dummy "n" .integer (some (.literal default (.integer 1))),
    .block .dummy [
      .ret .dummy (some (.arith default .add (.name default "n") (.literal default (.integer 2))))]]
  external := none
  span := .dummy

def sumProgram : Program := ⟨[sumFunction], none⟩

/-- The place of the variable in the function. -/
def sumSpot : Spot where
  layers := [
    ⟨[.decl .dummy "n" .integer (some (.literal default (.integer 1)))], .block .dummy, []⟩]
  before := []
  frame := .ret .dummy
  after := []
  parts := [.arithLeft default .add (.literal default (.integer 2))]

theorem sumProgram_local :
    Clean (checkFresh sumProgram).2.log ∧
    sumFunction.body = sumSpot.plug (.name default "n") ∧
    (checkFresh { sumProgram with
      functions := sumProgram.functions.set 0
        { sumFunction with body := sumSpot.plug (.name default "m") } }).2 =
      ⟨(checkFresh sumProgram).2.table, addFinding none .empty (.unknownIdentifier "m") .dummy⟩ := by
  have hclean : Clean (checkFresh sumProgram).2.log := by
    unfold Clean
    decide +kernel
  have hD : (infer (spotSight (settingOf none sumFunction) (bodyState sumProgram 0 sumFunction)
      sumSpot) .empty (.name default "m")).2 =
        addFinding none .empty (.unknownIdentifier "m") .dummy := by decide +kernel
  refine ⟨hclean, rfl, ?_⟩
  rw [← hD]
  exact checkFresh_local (C := sumSpot) (e := .name default "n") hclean rfl rfl rfl
    (by decide +kernel)

end Quill.Typing
