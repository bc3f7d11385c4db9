import Quill.Proofs.Typing.Stages

/-! # What checking looks at

Scopes, identifiers and functions are numbered in the order of their creation, and checking uses
these numbers all the time.  What it annotates and what it reports depends on none of them: it
depends on the variables in sight with their types and whether they are assigned, and on the
signatures of the functions.  `Alike` relates two states whose scopes stand in the same context over
the same functions, whatever the tables around them look like. -/

namespace Quill.Scope

/-- A function of this name is visible exactly if one is with some number of arguments. -/
theorem Table.hasFunctionNamed_iff (t : Table) (s : Nat) (name : String) :
    t.hasFunctionNamed s name = true ↔
      ∃ arity, (t.resolveFunction? s name arity).isSome = true := by
  have hsig : ∀ (l : List Function),
      l.any (·.name = name) = true ↔ ∃ arity, (l.find? (·.hasSignature name arity)).isSome := by
    intro l
    simp only [List.any_eq_true, List.find?_isSome, Function.hasSignature, decide_eq_true_eq]
    constructor
    · rintro ⟨f, hf, hname⟩
      exact ⟨f.arity, f, hf, hname, rfl⟩
    · rintro ⟨_, f, hf, hname, _⟩
      exact ⟨f, hf, hname⟩
  unfold hasFunctionNamed resolveFunction? resolveDeclared? builtin?
  simp only [Bool.or_eq_true, Option.isSome_or, hsig, exists_or]
  rw [or_comm]
  apply or_congr
  · rw [List.any_eq_true]
    simp only [List.findSome?_isSome_iff, hsig]
    exact ⟨fun ⟨r, hr, arity, h⟩ => ⟨arity, r, hr, h⟩, fun ⟨arity, r, hr, h⟩ => ⟨r, hr, arity, h⟩⟩
  · rfl

end Quill.Scope

namespace Quill.Typing

open Report (Log Finding)
open Scope (Table)

variable {fs : List FunctionDecl} {Γ : Ctx}

/-! ### Expressions -/

section

variable {s s' : Sight} {log : Log}

theorem Stands.read_eq (h : Stands s.table s.scope fs Γ) (x : String) (span : Span) :
    s.read log x span = match Γ.find? x with
      | none => (.undefined, addFinding s.file log (.unknownIdentifier x) span)
      | some v =>
        (v.ty, if v.assigned then log else addFinding s.file log (.uninitializedUse x) span) := by
  have hrel := h.tracks.resolveIdentifier? h.formed x
  unfold Sight.read
  generalize s.table.resolveIdentifier? s.scope x = found, Γ.find? x = known at hrel
  cases hrel with
  | none => rfl
  | @some i v hr =>
    obtain ⟨hty, hassigned⟩ := hr
    dsimp only
    rw [hassigned, hty]
    split <;> rfl

theorem Sight.arguments_congr (hfile : s.file = s'.file) (name : String) (isBuiltin : Bool) :
    ∀ (args : List Expr) {params params' : List Scope.Argument} (log : Log) (i : Nat),
      params.map (·.ty) = params'.map (·.ty) →
        s.arguments name isBuiltin log i args params =
          s'.arguments name isBuiltin log i args params'
  | [], _, _, _, _, _ => by simp only [arguments]
  | _ :: _, [], [], _, _, _ => rfl
  | _ :: _, [], _ :: _, _, _, hty => by cases hty
  | _ :: _, _ :: _, [], _, _, hty => by cases hty
  | arg :: args, param :: params, param' :: params', log, i, hty => by
    obtain ⟨hparam, hparams⟩ := List.cons.inj hty
    have hparam : param.ty = param'.ty := hparam
    rw [arguments, arguments, hparam]
    simp only [add, hfile]
    exact arguments_congr hfile name isBuiltin args _ _ hparams

theorem Stands.call_congr (h : Stands s.table s.scope fs Γ) (h' : Stands s'.table s'.scope fs Γ)
    (hfile : s.file = s'.file) (span : Span) (name : String) (args : List Expr) :
    s.call log span name args = s'.call log span name args := by
  have hsig : ∀ arity, (s.table.resolveFunction? s.scope name arity).map signatureIn =
      (s'.table.resolveFunction? s'.scope name arity).map signatureIn := fun arity =>
    (h.offers.resolveFunction? h.formed h.tracks name arity).trans
      (h'.offers.resolveFunction? h'.formed h'.tracks name arity).symm
  have hnamed : s.table.hasFunctionNamed s.scope name =
      s'.table.hasFunctionNamed s'.scope name := by
    rw [Bool.eq_iff_iff, Table.hasFunctionNamed_iff, Table.hasFunctionNamed_iff]
    refine exists_congr fun arity => ?_
    rw [← Option.isSome_map (f := signatureIn), hsig arity, Option.isSome_map]
  have hfound := hsig args.length
  unfold Sight.call
  rw [hnamed]
  generalize s.table.resolveFunction? s.scope name args.length = found,
    s'.table.resolveFunction? s'.scope name args.length = found' at hfound
  cases found with
  | none =>
    rw [Option.map_none, eq_comm, Option.map_eq_none_iff] at hfound
    subst hfound
    simp only [Sight.add, hfile]
  | some F =>
    obtain ⟨F', rfl, heq⟩ := Option.map_eq_some_iff.mp hfound.symm
    obtain ⟨hparams, hreturn, hbuiltin⟩ := Signature.mk.inj heq
    dsimp only
    rw [hreturn, hbuiltin, Sight.arguments_congr hfile name _ args log 1 hparams.symm]

mutual

/-- Expressions in the same context are annotated alike, with the same reports. -/
theorem infer_congr (h : Stands s.table s.scope fs Γ) (h' : Stands s'.table s'.scope fs Γ)
    (hfile : s.file = s'.file) : ∀ (log : Log) (e : Expr), infer s log e = infer s' log e
  | _, .literal _ _ => rfl
  | log, .name n x => by
    simp only [infer, h.read_eq, h'.read_eq, hfile]
  | log, .arith n op l r | log, .compare n op l r | log, .logic n op l r => by
    simp only [infer, infer_congr h h' hfile _ l, infer_congr h h' hfile _ r, Sight.combine,
      Sight.add, hfile]
  | log, .not n x => by
    simp only [infer, infer_congr h h' hfile _ x, Sight.negate, Sight.add, hfile]
  | log, .index n a is => by
    simp only [infer, h.read_eq, h'.read_eq, inferAll_congr h h' hfile _ _ _ is, Sight.element,
      Sight.add, hfile]
  | log, .call n f args => by
    simp only [infer, inferAll_congr h h' hfile _ _ _ args, h.call_congr h' hfile]
  | log, .newArray n e dims => by
    simp only [infer, inferAll_congr h h' hfile _ _ _ dims, Sight.array, Sight.add, hfile]

theorem inferAll_congr (h : Stands s.table s.scope fs Γ) (h' : Stands s'.table s'.scope fs Γ)
    (hfile : s.file = s'.file) :
    ∀ (integers : Option String) (log : Log) (done es : List Expr),
      inferAll s integers log done es = inferAll s' integers log done es
  | _, _, _, [] => rfl
  | integers, log, done, e :: es => by
    simp only [inferAll, infer_congr h h' hfile _ e, inferAll_congr h h' hfile _ _ _ es,
      Sight.expectInteger, Sight.add, hfile]

end

theorem inferElement_congr (h : Stands s.table s.scope fs Γ) (h' : Stands s'.table s'.scope fs Γ)
    (hfile : s.file = s'.file) (log : Log) (a : String) (is : List Expr) (span : Span) :
    inferElement s log a is span = inferElement s' log a is span := by
  simp only [inferElement, h.read_eq, h'.read_eq, inferAll_congr h h' hfile, Sight.element,
    Sight.add, hfile]

end

/-! ### Statements -/

/-- Two states, in two scopes of their tables, see the same and have reported the same. -/
structure Alike (fs : List FunctionDecl) (Γ : Ctx) (scope scope' : Nat) (st st' : State) :
    Prop where
  stands : Stands st.table scope fs Γ
  stands' : Stands st'.table scope' fs Γ
  log : st.log = st'.log

namespace Alike

variable {scope scope' : Nat} {st st' : State} (h : Alike fs Γ scope scope' st st') (c : Setting)

include h

theorem add (f : Finding) (span : Span) :
    Alike fs Γ scope scope' (st.add c f span) (st'.add c f span) :=
  ⟨h.stands, h.stands', congrArg (addFinding c.file · f span) h.log⟩

theorem infer (e : Expr) : (st.infer c scope e).1 = (st'.infer c scope' e).1 ∧
    Alike fs Γ scope scope' (st.infer c scope e).2 (st'.infer c scope' e).2 := by
  have hs : Stands (Sight.mk st.table scope c.file).table (Sight.mk st.table scope c.file).scope
      fs Γ := h.stands
  have hs' : Stands (Sight.mk st'.table scope' c.file).table
      (Sight.mk st'.table scope' c.file).scope fs Γ := h.stands'
  unfold State.infer
  rw [h.log, infer_congr hs hs' rfl]
  exact ⟨rfl, h.stands, h.stands', rfl⟩

theorem expectAssignable (value : Expr) (target : Ty) (context : String) :
    Alike fs Γ scope scope' (st.expectAssignable c value target context)
      (st'.expectAssignable c value target context) := by
  unfold State.expectAssignable
  split
  · exact h
  · exact h.add c _ _

theorem condition (e : Expr) : (st.condition c scope e).1 = (st'.condition c scope' e).1 ∧
    Alike fs Γ scope scope' (st.condition c scope e).2 (st'.condition c scope' e).2 := by
  obtain ⟨he, hst⟩ := h.infer c e
  unfold State.condition
  dsimp only
  rw [he]
  split
  · exact ⟨rfl, hst⟩
  · exact ⟨rfl, hst.add c _ _⟩

/-- The annotated indices are the same, and so is the type of the element. -/
theorem assignElement (a : String) (is : List Expr) (target : Span) (value : Expr) :
    (st.assignElement c scope a is target value).1 =
        (st'.assignElement c scope' a is target value).1 ∧
      (st.assignElement c scope a is target value).2.log =
        (st'.assignElement c scope' a is target value).2.log := by
  have hs : Stands (Sight.mk st.table scope c.file).table (Sight.mk st.table scope c.file).scope
      fs Γ := h.stands
  have hs' : Stands (Sight.mk st'.table scope' c.file).table
      (Sight.mk st'.table scope' c.file).scope fs Γ := h.stands'
  have hrel := h.stands.tracks.resolveIdentifier? h.stands.formed a
  have hrel' := h.stands'.tracks.resolveIdentifier? h.stands'.formed a
  unfold State.assignElement
  rw [h.log, inferElement_congr hs hs' rfl]
  generalize inferElement ⟨st'.table, scope', c.file⟩ st'.log a is target = el
  have hel : Alike fs Γ scope scope' ⟨st.table, el.2.2⟩ ⟨st'.table, el.2.2⟩ :=
    ⟨h.stands, h.stands', rfl⟩
  dsimp only
  generalize st.table.resolveIdentifier? scope a = found,
    st'.table.resolveIdentifier? scope' a = found', Γ.find? a = known at hrel hrel'
  cases hrel with
  | none =>
    cases hrel'
    exact ⟨rfl, (hel.expectAssignable c value el.1 _).log⟩
  | @some i v hi =>
    cases hrel' with
    | @some i' _ hi' =>
      dsimp only
      rw [hi.1, hi'.1]
      split
      · exact ⟨rfl, (hel.add c _ _).log⟩
      · exact ⟨rfl, (hel.expectAssignable c value el.1 _).log⟩

theorem assign (x : String) (target : Span) (value : Expr) :
    (st.assign c scope x target value).log = (st'.assign c scope' x target value).log := by
  have hrel := h.stands.tracks.resolveIdentifier? h.stands.formed x
  have hrel' := h.stands'.tracks.resolveIdentifier? h.stands'.formed x
  unfold State.assign
  generalize st.table.resolveIdentifier? scope x = found,
    st'.table.resolveIdentifier? scope' x = found', Γ.find? x = known at hrel hrel'
  cases hrel with
  | none =>
    cases hrel'
    exact (h.add c _ _).log
  | @some i v hi =>
    cases hrel' with
    | @some i' _ hi' =>
      dsimp only
      rw [hi.1, hi'.1]
      exact (h.expectAssignable c value v.ty _).log

theorem ret (span : Span) (value : Option Expr) :
    (st.ret c scope span value).1 = (st'.ret c scope' span value).1 ∧
      (st.ret c scope span value).2.log = (st'.ret c scope' span value).2.log := by
  unfold State.ret
  cases value with
  | none =>
    dsimp only
    split
    · exact ⟨rfl, h.log⟩
    · exact ⟨rfl, (h.add c _ _).log⟩
  | some e =>
    obtain ⟨he, hst⟩ := h.infer c e
    dsimp only
    rw [he]
    split
    · split
      · exact ⟨rfl, (hst.add c _ _).log⟩
      · exact ⟨rfl, hst.log⟩
    · exact ⟨rfl, (hst.expectAssignable c _ _ _).log⟩

theorem inner : Alike fs ([] :: Γ) (st.table.child scope).2 (st'.table.child scope').2
    ⟨(st.table.child scope).1, st.log⟩ ⟨(st'.table.child scope').1, st'.log⟩ :=
  ⟨h.stands.child, h.stands'.child, h.log⟩

end Alike

theorem Alike.declareIdentifier? {b : Block} {scope scope' : Nat} {st st' : State}
    (h : Alike fs (b :: Γ) scope scope' st st') (x : String) (ty : Ty) :
    (st.table.declareIdentifier? scope x ty = none ∧
        st'.table.declareIdentifier? scope' x ty = none) ∨
      ∃ t id t' id', st.table.declareIdentifier? scope x ty = some (t, id) ∧
        st'.table.declareIdentifier? scope' x ty = some (t', id') := by
  cases hd : st.table.declareIdentifier? scope x ty with
  | none =>
    have hsome := h.stands.declare_none hd
    cases hd' : st'.table.declareIdentifier? scope' x ty with
    | none => exact .inl ⟨rfl, rfl⟩
    | some r =>
      rw [(h.stands'.declare_some hd').1] at hsome
      cases hsome
  | some r =>
    have hnone := (h.stands.declare_some hd).1
    cases hd' : st'.table.declareIdentifier? scope' x ty with
    | none =>
      have hsome := h.stands'.declare_none hd'
      rw [hnone] at hsome
      cases hsome
    | some r' => exact .inr ⟨r.1, r.2, r'.1, r'.2, rfl, rfl⟩

theorem Alike.declare {b : Block} {scope scope' : Nat} {st st' : State}
    (h : Alike fs (b :: Γ) scope scope' st st') (c : Setting) (span : Span) (x : String) (ty : Ty)
    (init : Option Expr) :
    (st.declare c scope span x ty init).1 = (st'.declare c scope' span x ty init).1 ∧
      (st.declare c scope span x ty init).2.log = (st'.declare c scope' span x ty init).2.log := by
  have htype : Alike fs (b :: Γ) scope scope'
      (if ty.isVariable then st else st.add c (.invalidVariableType x ty.name) span)
      (if ty.isVariable then st' else st'.add c (.invalidVariableType x ty.name) span) := by
    split
    · exact h
    · exact h.add c _ _
  unfold State.declare
  dsimp only
  generalize (if ty.isVariable then st else st.add c (.invalidVariableType x ty.name) span) = st₁,
    (if ty.isVariable then st' else st'.add c (.invalidVariableType x ty.name) span) = st₂ at htype
  cases init with
  | none =>
    dsimp only
    rcases htype.declareIdentifier? x ty with ⟨hd, hd'⟩ | ⟨t, id, t', id', hd, hd'⟩
    · rw [hd, hd']
      exact ⟨rfl, (htype.add c _ _).log⟩
    · rw [hd, hd']
      exact ⟨rfl, htype.log⟩
  | some e =>
    obtain ⟨he, hst⟩ := htype.infer c e
    dsimp only
    rw [he]
    generalize (st₁.infer c scope e).2 = st₃, (st₂.infer c scope' e).2 = st₄ at hst
    rcases hst.declareIdentifier? x ty with ⟨hd, hd'⟩ | ⟨t, id, t', id', hd, hd'⟩
    · rw [hd, hd']
      exact ⟨rfl, (hst.add c _ _).log⟩
    · rw [hd, hd']
      dsimp only
      split
      · refine ⟨rfl, ?_⟩
        unfold State.expectAssignable
        split
        · exact hst.log
        · exact (hst.add c _ _).log
      · exact ⟨rfl, hst.log⟩

/-- Two outcomes of checking statements: the same annotations, the same paths that return and the
same reports. -/
structure SameOutcome {α : Type} (r r' : α × Bool × State) : Prop where
  annotated : r.1 = r'.1
  returns : r.2.1 = r'.2.1
  log : r.2.2.log = r'.2.2.log

section

variable {c : Setting} {b : Block} {scope scope' : Nat} {st st' : State}

theorem Alike.after_stmt (h : Alike fs (b :: Γ) scope scope' st st') {s : Stmt}
    (hs : SameOutcome (checkStmt c scope st s) (checkStmt c scope' st' s)) :
    Alike fs (after (b :: Γ) (checkStmt c scope st s).1) scope scope'
      (checkStmt c scope st s).2.2 (checkStmt c scope' st' s).2.2 := by
  refine ⟨(checkStmt_sound st h.stands s).stands, ?_, hs.log⟩
  rw [hs.annotated]
  exact (checkStmt_sound st' h.stands' s).stands

/-- After a body the scopes around it see what they saw before. -/
theorem Alike.after_body (h : Alike fs (b :: Γ) scope scope' st st') {body : List Stmt}
    (hs : SameOutcome
      (checkStmts c (st.table.child scope).2 ⟨(st.table.child scope).1, st.log⟩ [] false body)
      (checkStmts c (st'.table.child scope').2 ⟨(st'.table.child scope').1, st'.log⟩ []
        false body)) :
    Alike fs (b :: Γ) scope scope'
      (checkStmts c (st.table.child scope).2 ⟨(st.table.child scope).1, st.log⟩ []
        false body).2.2
      (checkStmts c (st'.table.child scope').2 ⟨(st'.table.child scope').1, st'.log⟩ []
        false body).2.2 := by
  have hbody := checkStmts_sound (c := c) ⟨_, st.log⟩ h.stands.child body
  have hbody' := checkStmts_sound (c := c) ⟨_, st'.log⟩ h.stands'.child body
  obtain ⟨_, hleft, _⟩ := h.stands.of_child hbody.stands.formed hbody.kept
  obtain ⟨_, hright, _⟩ := h.stands'.of_child hbody'.stands.formed hbody'.kept
  exact ⟨hleft, hright, hs.log⟩

theorem checkStmt_block_congr (span : Span) {body : List Stmt}
    (hs : SameOutcome
      (checkStmts c (st.table.child scope).2 ⟨(st.table.child scope).1, st.log⟩ [] false body)
      (checkStmts c (st'.table.child scope').2 ⟨(st'.table.child scope').1, st'.log⟩ []
        false body)) :
    SameOutcome (checkStmt c scope st (.block span body))
      (checkStmt c scope' st' (.block span body)) := by
  simp only [checkStmt]
  exact ⟨congrArg (Stmt.block span) hs.annotated, hs.returns, hs.log⟩

end

mutual

/-- Statements in the same context are annotated alike, with the same reports. -/
theorem checkStmt_congr {c : Setting} {b : Block} {Γ : Ctx} {scope scope' : Nat} {st st' : State}
    (h : Alike fs (b :: Γ) scope scope' st st') :
    ∀ s : Stmt, SameOutcome (checkStmt c scope st s) (checkStmt c scope' st' s)
  | .expr span e => by
    obtain ⟨he, hst⟩ := h.infer c e
    simp only [checkStmt]
    exact ⟨congrArg (Stmt.expr span) he, rfl, hst.log⟩
  | .decl span x ty init => by
    obtain ⟨hinit, hlog⟩ := h.declare c span x ty init
    simp only [checkStmt]
    exact ⟨congrArg (Stmt.decl span x ty) hinit, rfl, hlog⟩
  | .assign span x target value => by
    obtain ⟨hvalue, hst⟩ := h.infer c value
    simp only [checkStmt, hvalue]
    exact ⟨rfl, rfl, hst.assign c x target _⟩
  | .assignElement span a is target value => by
    obtain ⟨hvalue, hst⟩ := h.infer c value
    obtain ⟨hindices, hlog⟩ := hst.assignElement c a is target (st'.infer c scope' value).1
    simp only [checkStmt, hvalue]
    exact ⟨congrArg (Stmt.assignElement span a · target _) hindices, rfl, hlog⟩
  | .ret span value => by
    obtain ⟨hvalue, hlog⟩ := h.ret c span value
    simp only [checkStmt]
    exact ⟨congrArg (Stmt.ret span) hvalue, rfl, hlog⟩
  | .ifThen span cond body => by
    obtain ⟨hcond, hst⟩ := h.condition c cond
    have hbody := checkStmts_congr (c := c) hst.inner body
    simp only [checkStmt]
    exact ⟨congrArg₂ (Stmt.ifThen span) hcond hbody.annotated, rfl, hbody.log⟩
  | .while span cond body => by
    obtain ⟨hcond, hst⟩ := h.condition c cond
    have hbody := checkStmts_congr (c := c) hst.inner body
    simp only [checkStmt]
    exact ⟨congrArg₂ (Stmt.while span) hcond hbody.annotated, rfl, hbody.log⟩
  | .ifElse span cond body other => by
    obtain ⟨hcond, hst⟩ := h.condition c cond
    have hbody := checkStmts_congr (c := c) hst.inner body
    have hother := checkStmts_congr (c := c) (hst.after_body hbody).inner other
    simp only [checkStmt, hcond, hbody.annotated, hother.annotated]
    exact ⟨rfl, congrArg₂ (· && ·) hbody.returns hother.returns, hother.log⟩
  | .doWhile span body cond => by
    have hblock := checkStmt_block_congr span (checkStmts_congr (c := c) h.inner body)
    obtain ⟨hcond, hst⟩ := (h.after_stmt hblock).condition c cond
    have hbody := checkStmts_congr (c := c) h.inner body
    simp only [checkStmt] at hcond hst ⊢
    exact ⟨congrArg₂ (Stmt.doWhile span) hbody.annotated hcond, hbody.returns, hst.log⟩
  | .block span body =>
    checkStmt_block_congr span (checkStmts_congr (c := c) h.inner body)

theorem checkStmts_congr {c : Setting} {b : Block} {Γ : Ctx} {scope scope' : Nat} {st st' : State}
    (h : Alike fs (b :: Γ) scope scope' st st') :
    ∀ ss : List Stmt,
      SameOutcome (checkStmts c scope st [] false ss) (checkStmts c scope' st' [] false ss)
  | [] => ⟨rfl, rfl, h.log⟩
  | s :: ss => by
    have hhead := checkStmt_congr (c := c) h s
    have hmid := h.after_stmt hhead
    obtain ⟨b', Γ', heq, _⟩ := after_cons b Γ (checkStmt c scope st s).1
    rw [heq] at hmid
    have hrest := checkStmts_congr (c := c) hmid ss
    rw [checkStmts_cons, checkStmts_cons]
    exact ⟨congrArg₂ List.cons hhead.annotated hrest.annotated,
      congrArg₂ (· || ·) hhead.returns hrest.returns, hrest.log⟩

end

/-! ### Bodies -/

theorem declareParams_congr {c : Setting} {scope scope' : Nat} (params : List Param) :
    ∀ {b : Block} {st st' : State}, Alike fs [b] scope scope' st st' →
      ∃ b', Alike fs [b'] scope scope' (declareParams c scope st params)
        (declareParams c scope' st' params) := by
  induction params with
  | nil => exact fun h => ⟨_, h⟩
  | cons p params ih =>
    intro b st st' h
    unfold declareParams
    rw [List.foldl_cons, List.foldl_cons]
    rcases h.declareIdentifier? p.name p.ty with ⟨hd, hd'⟩ | ⟨t, id, t', id', hd, hd'⟩
    · rw [hd, hd']
      exact ih (h.add c _ _)
    · rw [hd, hd']
      obtain ⟨_, _, hs, _⟩ := h.stands.declare_some hd
      obtain ⟨_, _, hs', _⟩ := h.stands'.declare_some hd'
      rw [← markEverywhere_eq hd] at hs
      rw [← markEverywhere_eq hd'] at hs'
      exact ih ⟨hs, hs', h.log⟩

/-- A body is annotated and reported on alike in every table whose root scope offers the same
functions. -/
theorem checkBody_congr {st st' : State} (h : Alike fs [] Table.root Table.root st st')
    (file : Option String) (f : FunctionDecl) :
    (checkBody file st f).1 = (checkBody file st' f).1 ∧
      Alike fs [] Table.root Table.root (checkBody file st f).2 (checkBody file st' f).2 := by
  have hstands : Stands (checkBody file st f).2.table Table.root fs [] :=
    (checkBody_sound st h.stands).1
  have hstands' : Stands (checkBody file st' f).2.table Table.root fs [] :=
    (checkBody_sound st' h.stands').1
  obtain ⟨b, hparams⟩ := declareParams_congr (c := settingOf file f) f.params h.inner
  have hbody := checkStmts_congr (c := settingOf file f) hparams f.body
  refine ⟨congrArg (fun body => { f with body }) hbody.annotated, hstands, hstands', ?_⟩
  unfold checkBody
  dsimp only
  rw [hbody.returns]
  split
  · exact congrArg (addFinding file · _ _) hbody.log
  · exact hbody.log

end Quill.Typing
