import Quill.Proofs.Typing.Definite
import Quill.Proofs.Typing.Erased
import Quill.Proofs.Typing.Order

/-! # Reports of unassigned variables

Checking keeps, for each identifier of its table, the blocks in which it has been assigned, and
carries them over from block to block.  What it reports with this is what definite assignment says:
in the order of the reads, each read of a declaration that is not in the set of its point is
reported, and no other (`uninitializedUses_eq`), whatever else is reported on the way. -/

namespace Quill

/-- What is reported of an unassigned read. -/
def Read.report (file : Option String) (r : Read) : Report :=
  { (Report.Finding.uninitializedUse r.name).report r.span with file }

namespace Typing

open Report (Log Finding)
open Scope (Table)

/-- The reports of unassigned variables in a log. -/
def uninitializedUses (log : Log) : List Report :=
  log.reports.filter (·.code = .uninitializedUse)

/-- The reports of those reads that are unassigned. -/
def unassignedReads (file : Option String) (rs : List Read) : List Report :=
  (rs.filter (·.unassigned)).map (·.report file)

theorem unassignedReads_append (file : Option String) (rs rs' : List Read) :
    unassignedReads file (rs ++ rs') = unassignedReads file rs ++ unassignedReads file rs' := by
  rw [unassignedReads, List.filter_append, List.map_append]
  rfl

theorem unassignedReads_reads_append (file : Option String) (P : Point)
    (rs rs' : List (String × Span)) : unassignedReads file (P.reads (rs ++ rs')) =
      unassignedReads file (P.reads rs) ++ unassignedReads file (P.reads rs') := by
  rw [Point.reads, List.map_append]
  exact unassignedReads_append ..

theorem unassignedReads_singleton (file : Option String) (r : Read) :
    unassignedReads file [r] = if r.unassigned then [r.report file] else [] := by
  unfold unassignedReads
  rw [List.filter_singleton]
  cases r.unassigned <;> rfl

/-! ### Other reports -/

theorem uninitializedUses_add (log : Log) (r : Report) :
    uninitializedUses (log.add r) =
      uninitializedUses log ++ if r.code = .uninitializedUse then [r] else [] := by
  unfold uninitializedUses Log.reports Log.toArray Log.add
  cases hk : r.kind with
  | meaning =>
    dsimp only
    rw [Array.toList_append, Array.toList_push, Array.toList_append, ← List.append_assoc,
      List.filter_append _ [r], List.filter_singleton]
    simp
  | wording =>
    have hcode : r.code ≠ .uninitializedUse := by
      intro hcode
      rw [Report.kind, hcode] at hk
      cases hk
    dsimp only
    rw [Array.toList_append, Array.toList_push, Array.toList_append, List.filter_append,
      List.filter_append, List.filter_append, List.filter_singleton, if_neg hcode]
    simp [hcode]

theorem addFinding_eq (file : Option String) (log : Log) (f : Finding) (span : Span) :
    addFinding file log f span = log.add { f.report span with file } := by
  have hfile : (f.report span).file = none := by cases f <;> rfl
  unfold addFinding
  cases file with
  | some file => rfl
  | none =>
    dsimp only
    rw [← hfile]

theorem uninitializedUses_other (file : Option String) (log : Log) {f : Finding} (span : Span)
    (hf : decide (f.code = .uninitializedUse) = false) :
    uninitializedUses (addFinding file log f span) = uninitializedUses log := by
  have hcode : (f.report span).code = f.code := by cases f <;> rfl
  rw [addFinding_eq, uninitializedUses_add, if_neg (hcode ▸ of_decide_eq_false hf),
    List.append_nil]

theorem uninitializedUses_use (file : Option String) (log : Log) (x : String) (span : Span)
    (P : Point) : uninitializedUses (addFinding file log (.uninitializedUse x) span) =
      uninitializedUses log ++ [(Read.mk x span P).report file] := by
  rw [addFinding_eq, uninitializedUses_add]
  exact congrArg (uninitializedUses log ++ ·) (if_pos rfl)

/-! ### Expressions -/

section

variable {s : Sight} {fs : List FunctionDecl} {Γ : Ctx} {P : Point}

theorem uses_read (h : Stands s.table s.scope fs Γ) (ha : Agrees P Γ) (log : Log) (x : String)
    (span : Span) : uninitializedUses (s.read log x span).2 =
      uninitializedUses log ++ unassignedReads s.file (P.reads [(x, span)]) := by
  have hrel := ha.find? x
  have hreads : unassignedReads s.file (P.reads [(x, span)]) =
      if (P.find? x).any (· ∉ P.assigned) then [(Read.mk x span P).report s.file] else [] :=
    unassignedReads_singleton ..
  rw [h.read_eq, hreads]
  generalize P.find? x = found, Γ.find? x = known at hrel
  cases hrel with
  | none =>
    rw [Option.any_none, if_neg Bool.false_ne_true, List.append_nil]
    exact uninitializedUses_other _ _ _ rfl
  | @some d v hr =>
    rw [Option.any_some]
    dsimp only
    by_cases hv : v.assigned = true
    · have hd : d ∈ P.assigned := hr.mp hv
      rw [if_pos hv, if_neg (by simpa using hd), List.append_nil]
    · have hd : d ∉ P.assigned := fun hd => hv (hr.mpr hd)
      rw [if_neg hv, if_pos (by simpa using hd)]
      exact uninitializedUses_use ..

/-! Operators, indices and calls make other reports. -/

theorem uses_combine (s : Sight) (log : Log) (span : Span) (op : String) (lhs rhs : Ty)
    (result : Option Ty) (unknown : Ty) :
    uninitializedUses (s.combine log span op lhs rhs result unknown).2 = uninitializedUses log := by
  unfold Sight.combine
  split
  · rfl
  · split
    · rfl
    · exact uninitializedUses_other _ _ _ rfl

theorem uses_negate (s : Sight) (log : Log) (span : Span) (operand : Ty) :
    uninitializedUses (s.negate log span operand).2 = uninitializedUses log := by
  unfold Sight.negate
  split
  · rfl
  · exact uninitializedUses_other _ _ _ rfl

theorem uses_expectInteger (s : Sight) (log : Log) (what : String) (e : Expr) :
    uninitializedUses (s.expectInteger log what e) = uninitializedUses log := by
  unfold Sight.expectInteger
  split
  · rfl
  · exact uninitializedUses_other _ _ _ rfl

theorem uses_element (s : Sight) (log : Log) (span : Span) (a : String) (base : Ty) (count : Nat) :
    uninitializedUses (s.element log span a base count).2 = uninitializedUses log := by
  unfold Sight.element
  split
  · rfl
  · split
    · rfl
    · exact uninitializedUses_other _ _ _ rfl
  · split
    · rfl
    · exact uninitializedUses_other _ _ _ rfl

theorem uses_array (s : Sight) (log : Log) (span : Span) (element : Element) (count : Nat) :
    uninitializedUses (s.array log span element count).2 = uninitializedUses log := by
  unfold Sight.array
  split
  · rfl
  · exact uninitializedUses_other _ _ _ rfl

theorem uses_arguments (s : Sight) (name : String) (isBuiltin : Bool) :
    ∀ (args : List Expr) (params : List Scope.Argument) (log : Log) (i : Nat),
      uninitializedUses (s.arguments name isBuiltin log i args params) = uninitializedUses log
  | [], _, _, _ => by simp only [Sight.arguments]
  | _ :: _, [], _, _ => rfl
  | arg :: args, param :: params, log, i => by
    rw [Sight.arguments, uses_arguments s name isBuiltin args params]
    split
    · exact uninitializedUses_other _ _ _ rfl
    · split
      · exact uninitializedUses_other _ _ _ rfl
      · rfl

theorem uses_call (s : Sight) (log : Log) (span : Span) (name : String) (args : List Expr) :
    uninitializedUses (s.call log span name args).2 = uninitializedUses log := by
  unfold Sight.call
  split
  · exact uses_arguments ..
  · split
    · exact uninitializedUses_other _ _ _ rfl
    · exact uninitializedUses_other _ _ _ rfl

mutual

theorem uses_infer (h : Stands s.table s.scope fs Γ) (ha : Agrees P Γ) :
    ∀ (log : Log) (e : Expr), uninitializedUses (infer s log e).2 =
      uninitializedUses log ++ unassignedReads s.file (P.reads e.reads)
  | log, .literal _ _ => (List.append_nil _).symm
  | log, .name n x => uses_read h ha log x n.span
  | log, .arith n op l r | log, .compare n op l r | log, .logic n op l r => by
    rw [infer]
    dsimp only
    rw [uses_combine, uses_infer h ha _ r, uses_infer h ha log l, Expr.reads,
      unassignedReads_reads_append, List.append_assoc]
  | log, .not n x => by
    rw [infer]
    dsimp only
    rw [uses_negate, uses_infer h ha log x, Expr.reads]
  | log, .index n a is => by
    rw [infer]
    dsimp only
    rw [uses_element, uses_inferAll h ha _ _ is, uses_read h ha, List.append_assoc,
      ← unassignedReads_reads_append, Expr.reads]
    rfl
  | log, .call n f args => by
    rw [infer]
    dsimp only
    rw [uses_call, uses_inferAll h ha _ _ args, Expr.reads]
  | log, .newArray n e dims => by
    rw [infer]
    dsimp only
    rw [uses_array, uses_inferAll h ha _ _ dims, Expr.reads]

theorem uses_inferAll (h : Stands s.table s.scope fs Γ) (ha : Agrees P Γ) :
    ∀ (integers : Option String) (log : Log) (es : List Expr),
      uninitializedUses (inferAll s integers log [] es).2 =
        uninitializedUses log ++ unassignedReads s.file (P.reads (exprsReads es))
  | _, log, [] => (List.append_nil _).symm
  | integers, log, e :: es => by
    rw [inferAll_cons]
    dsimp only
    rw [uses_inferAll h ha _ _ es, exprsReads, unassignedReads_reads_append, ← List.append_assoc,
      ← uses_infer h ha log e]
    cases integers with
    | some what => rw [uses_expectInteger]
    | none => rfl

end

end

/-! ### Steps of a statement -/

section

variable {fs : List FunctionDecl} {Γ : Ctx} {P : Point} {c : Setting} {scope : Nat} {st : State}

theorem Stands.uses_infer (h : Stands st.table scope fs Γ) (ha : Agrees P Γ) (c : Setting)
    (e : Expr) : uninitializedUses (st.infer c scope e).2.log =
      uninitializedUses st.log ++ unassignedReads c.file (P.reads e.reads) := by
  have hs : Stands (Sight.mk st.table scope c.file).table (Sight.mk st.table scope c.file).scope
      fs Γ := h
  exact Typing.uses_infer hs ha st.log e

theorem uses_expectAssignable (st : State) (c : Setting) (value : Expr) (target : Ty)
    (context : String) : uninitializedUses (st.expectAssignable c value target context).log =
      uninitializedUses st.log := by
  unfold State.expectAssignable
  split
  · rfl
  · exact uninitializedUses_other _ _ _ rfl

theorem Stands.uses_condition (h : Stands st.table scope fs Γ) (ha : Agrees P Γ) (c : Setting)
    (e : Expr) : uninitializedUses (st.condition c scope e).2.log =
      uninitializedUses st.log ++ unassignedReads c.file (P.reads e.reads) := by
  rw [← h.uses_infer ha c e]
  unfold State.condition
  dsimp only
  split
  · rfl
  · exact uninitializedUses_other _ _ _ rfl

theorem Stands.uses_declare (h : Stands st.table scope fs Γ) (ha : Agrees P Γ) (c : Setting)
    (span : Span) (x : String) (ty : Ty) (init : Option Expr) :
    uninitializedUses (st.declare c scope span x ty init).2.log =
      uninitializedUses st.log ++ unassignedReads c.file (P.reads (exprsReads init.toList)) := by
  have htype : ∀ st₁, (if ty.isVariable then st
      else st.add c (.invalidVariableType x ty.name) span) = st₁ →
        st₁.table = st.table ∧ uninitializedUses st₁.log = uninitializedUses st.log := by
    rintro st₁ rfl
    split
    · exact ⟨rfl, rfl⟩
    · exact ⟨rfl, uninitializedUses_other _ _ _ rfl⟩
  unfold State.declare
  dsimp only
  generalize hst₁ : (if ty.isVariable then st
      else st.add c (.invalidVariableType x ty.name) span) = st₁
  obtain ⟨htab, huses⟩ := htype st₁ hst₁
  rw [← huses]
  cases init with
  | none =>
    refine Eq.trans ?_ (List.append_nil _).symm
    split
    · exact uninitializedUses_other _ _ _ rfl
    · rfl
  | some e =>
    have h₁ : Stands st₁.table scope fs Γ := htab ▸ h
    rw [Option.toList_some, exprsReads, exprsReads, List.append_nil, ← h₁.uses_infer ha c e]
    split
    · exact uninitializedUses_other _ _ _ rfl
    · dsimp only
      split
      · exact uses_expectAssignable ..
      · rfl

theorem uses_assign (st : State) (c : Setting) (scope : Nat) (x : String) (target : Span)
    (value : Expr) : uninitializedUses (st.assign c scope x target value).log =
      uninitializedUses st.log := by
  unfold State.assign
  split
  · exact uninitializedUses_other _ _ _ rfl
  · exact uses_expectAssignable ..

theorem Stands.uses_assignElement (h : Stands st.table scope fs Γ) (ha : Agrees P Γ) (c : Setting)
    (a : String) (is : List Expr) (target : Span) (value : Expr) :
    uninitializedUses (st.assignElement c scope a is target value).2.log =
      uninitializedUses st.log ++
        unassignedReads c.file (P.reads ((a, target) :: exprsReads is)) := by
  have hs : Stands (Sight.mk st.table scope c.file).table (Sight.mk st.table scope c.file).scope
      fs Γ := h
  have helement : uninitializedUses
      (inferElement ⟨st.table, scope, c.file⟩ st.log a is target).2.2 = uninitializedUses st.log ++
        unassignedReads c.file (P.reads ((a, target) :: exprsReads is)) := by
    unfold inferElement
    dsimp only
    rw [uses_element, uses_inferAll hs ha _ _ is, uses_read hs ha, List.append_assoc,
      ← unassignedReads_reads_append]
    rfl
  rw [← helement]
  unfold State.assignElement
  dsimp only
  split
  · split
    · exact uninitializedUses_other _ _ _ rfl
    · exact uses_expectAssignable ..
  · exact uses_expectAssignable ..

theorem Stands.uses_ret (h : Stands st.table scope fs Γ) (ha : Agrees P Γ) (c : Setting)
    (span : Span) (value : Option Expr) : uninitializedUses (st.ret c scope span value).2.log =
      uninitializedUses st.log ++ unassignedReads c.file (P.reads (exprsReads value.toList)) := by
  unfold State.ret
  cases value with
  | none =>
    refine Eq.trans ?_ (List.append_nil _).symm
    dsimp only
    split
    · rfl
    · exact uninitializedUses_other _ _ _ rfl
  | some e =>
    rw [Option.toList_some, exprsReads, exprsReads, List.append_nil, ← h.uses_infer ha c e]
    dsimp only
    split
    · split
      · exact uninitializedUses_other _ _ _ rfl
      · rfl
    · exact uses_expectAssignable ..

end

/-! ### Statements

The context after a statement does not depend on its annotations, so it is that of the statement as
it was before it was checked. -/

mutual

theorem after_bare (Γ : Ctx) : ∀ s : Stmt, after Γ s.bare = after Γ s
  | .decl _ _ _ _ => by rw [Stmt.bare, after, after, Option.isSome_map]
  | .ifElse _ _ body other => by
    rw [Stmt.bare, after, after, afterAll_bare _ body, afterAll_bare _ other]
  | .doWhile _ body _ | .block _ body => by rw [Stmt.bare, after, after, afterAll_bare _ body]
  | .expr _ _ | .assign _ _ _ _ | .assignElement _ _ _ _ _ | .ifThen _ _ _ | .while _ _ _
  | .ret _ _ => rfl

theorem afterAll_bare : ∀ (Γ : Ctx) (ss : List Stmt), afterAll Γ (stmtsBare ss) = afterAll Γ ss
  | _, [] => rfl
  | Γ, s :: ss => by rw [stmtsBare, afterAll, afterAll, after_bare Γ s, afterAll_bare _ ss]

end

theorem after_checkStmt (c : Setting) (scope : Nat) (st : State) (Γ : Ctx) (s : Stmt) :
    after Γ (checkStmt c scope st s).1 = after Γ s := by
  rw [← after_bare, bare_checkStmt, after_bare]

section

variable {fs : List FunctionDecl} {c : Setting}

mutual

/-- A statement reports its unassigned reads. -/
theorem uses_checkStmt {b : Block} {Γ : Ctx} {P : Point} {way : Way} {k scope : Nat} {st : State}
    (h : Stands st.table scope fs (b :: Γ)) (ha : Agrees P (b :: Γ)) (hk : P.Ahead way k) :
    ∀ s : Stmt, uninitializedUses (checkStmt c scope st s).2.2.log =
      uninitializedUses st.log ++ unassignedReads c.file (s.reads way k P)
  | .expr _ e => h.uses_infer ha c e
  | .decl span x ty init => h.uses_declare ha c span x ty init
  | .assign _ x target value => (uses_assign ..).trans (h.uses_infer ha c value)
  | .assignElement _ a is target value => by
    have h₁ : Stands (st.infer c scope value).2.table scope fs (b :: Γ) := h
    rw [Stmt.reads, unassignedReads_reads_append, ← List.append_assoc, ← h.uses_infer ha c value]
    exact h₁.uses_assignElement ha c a is target _
  | .ret span value => h.uses_ret ha c span value
  | .ifThen _ cond body | .while _ cond body => by
    have h₁ := h.past_condition c cond
    rw [Stmt.reads, unassignedReads_append, ← List.append_assoc, ← h.uses_condition ha c cond]
    exact uses_checkStmts h₁.inner.1 ha.inner (hk.inner 0) body
  | .ifElse _ cond body other => by
    have h₁ := h.past_condition c cond
    obtain ⟨h₂, _, _⟩ := h₁.after_inner c body rfl
    have hbody := uses_checkStmts h₁.inner.1 ha.inner (hk.inner 0) body
    have hother := uses_checkStmts h₂.inner.1 ha.inner (hk.inner 1) other
    rw [Stmt.reads, unassignedReads_append, unassignedReads_append, ← List.append_assoc,
      ← List.append_assoc, ← h.uses_condition ha c cond]
    exact hother.trans (congrArg (· ++ _) hbody)
  | .doWhile span body cond => by
    have hblock := (checkStmt_sound (c := c) st h (.block span body)).stands
    rw [after_checkStmt] at hblock
    have hcond := hblock.uses_condition (ha.flow hk (.block span body)) c cond
    have hbody := uses_checkStmts h.inner.1 ha.inner (hk.inner 0) body
    rw [Stmt.reads, unassignedReads_append, ← List.append_assoc]
    exact hcond.trans (congrArg (· ++ _) hbody)
  | .block _ body => uses_checkStmts h.inner.1 ha.inner (hk.inner 0) body

theorem uses_checkStmts {b : Block} {Γ : Ctx} {P : Point} {way : Way} {k scope : Nat} {st : State}
    (h : Stands st.table scope fs (b :: Γ)) (ha : Agrees P (b :: Γ)) (hk : P.Ahead way k) :
    ∀ ss : List Stmt, uninitializedUses (checkStmts c scope st [] false ss).2.2.log =
      uninitializedUses st.log ++ unassignedReads c.file (stmtsReads way k P ss)
  | [] => (List.append_nil _).symm
  | s :: ss => by
    have hhead := uses_checkStmt h ha hk s
    have hstands := (checkStmt_sound (c := c) st h s).stands
    have hagrees := ha.flow hk s
    rw [after_checkStmt] at hstands
    obtain ⟨b', Γ', heq, _⟩ := after_cons b Γ s
    rw [heq] at hstands hagrees
    rw [checkStmts_cons, stmtsReads, unassignedReads_append, ← List.append_assoc, ← hhead]
    exact uses_checkStmts hstands hagrees (hk.flow s) ss

end

end

/-! ### Bodies -/

section

variable {fs : List FunctionDecl}

/-- The parameters make the block of a body, and they are assigned. -/
theorem declareParams_agrees (c : Setting) {scope : Nat} :
    ∀ (params : List Param) {k : Nat} {P : Point} {b : Block} (st : State),
      Stands st.table scope fs [b] → Agrees P [b] → P.OnlyParams k →
        uninitializedUses (declareParams c scope st params).log = uninitializedUses st.log ∧
          ∃ b', Stands (declareParams c scope st params).table scope fs [b'] ∧
            Agrees (P.withParams k params) [b']
  | [], _, _, b, _, h, ha, _ => ⟨rfl, b, h, ha⟩
  | p :: params, k, P, b, st, h, ha, hk => by
    have hagrees := ha.declare hk.not_knows p.name p.ty true
    have honly := hk.declare p.name true
    unfold declareParams
    rw [List.foldl_cons, Point.withParams]
    cases hd : st.table.declareIdentifier? scope p.name p.ty with
    | none =>
      rw [Ctx.declare, if_pos (h.declare_none hd)] at hagrees
      obtain ⟨huses, hb⟩ := declareParams_agrees c params
        (st.add c (.duplicateIdentifier p.name) p.span) h hagrees honly
      exact ⟨huses.trans (uninitializedUses_other _ _ _ rfl), hb⟩
    | some r =>
      obtain ⟨t', id⟩ := r
      obtain ⟨hnone, _, hs, _⟩ := h.declare_some hd
      rw [← markEverywhere_eq hd] at hs
      rw [Ctx.declare, hnone, Option.isSome_none, if_neg Bool.false_ne_true] at hagrees
      exact declareParams_agrees c params ⟨t'.markEverywhere id, st.log⟩ hs hagrees honly

theorem uses_checkBody (file : Option String) {st : State} (h : Stands st.table Table.root fs [])
    (f : FunctionDecl) : uninitializedUses (checkBody file st f).2.log =
      uninitializedUses st.log ++ unassignedReads file f.reads := by
  have hchild : Stands (st.table.child Table.root).1 (st.table.child Table.root).2 fs [[]] :=
    h.child
  have hempty : Agrees ⟨[[]], ∅⟩ [[]] := .cons .nil .nil
  obtain ⟨huses, b, hs, hagrees⟩ :=
    declareParams_agrees (settingOf file f) f.params ⟨_, st.log⟩ hchild hempty
      Point.onlyParams_empty
  have hahead := Point.entry_ahead f.params
  have hbody := uses_checkStmts (c := settingOf file f) hs hagrees hahead f.body
  rw [huses] at hbody
  refine Eq.trans ?_ hbody
  unfold checkBody
  dsimp only
  split
  · exact uninitializedUses_other _ _ _ rfl
  · rfl

theorem uses_checkBodies (file : Option String) :
    ∀ (ds : List (FunctionDecl × Bool)) {st : State}, Stands st.table Table.root fs [] →
      uninitializedUses (checkBodies file st [] ds).2.log = uninitializedUses st.log ++
        ((ds.filter visits).map Prod.fst).flatMap fun f => unassignedReads file f.reads
  | [], _, _ => (List.append_nil _).symm
  | (f, declared) :: ds, st, h => by
    rw [checkBodies_cons, List.filter_cons]
    have hvisits : visits (f, declared) = (declared && !f.isExternal) := rfl
    rw [hvisits]
    cases declared && !f.isExternal with
    | true =>
      have hstands : Stands (checkBody file st f).2.table Table.root fs [] :=
        (checkBody_sound st h).1
      have hrest := uses_checkBodies file ds hstands
      rw [uses_checkBody file h] at hrest
      simpa using hrest
    | false => exact uses_checkBodies file ds h

end

/-! ### Programs -/

/-- The functions of a list whose bodies are checked after the declarations of others: those that
can be declared, since a call of the name and the number of arguments means nothing before, and that
are not external. -/
def checkedFrom (before : List FunctionDecl) : List FunctionDecl → List FunctionDecl
  | [] => []
  | f :: fs =>
    if (signature? before f.name f.arity).isSome then checkedFrom before fs
    else (if f.isExternal then [] else [f]) ++ checkedFrom (before ++ [f]) fs

theorem uses_checkParams (c : Setting) (params : List Param) :
    ∀ st : State, uninitializedUses (checkParams c st params).log = uninitializedUses st.log := by
  unfold checkParams
  induction params with
  | nil => exact fun _ => rfl
  | cons p params ih =>
    intro st
    rw [List.foldl_cons, ih]
    split
    · rfl
    · exact uninitializedUses_other _ _ _ rfl

theorem uses_declareFunctions (file : Option String) :
    ∀ (fs : List FunctionDecl) (st : State) (done : List (FunctionDecl × Bool)),
      uninitializedUses (declareFunctions file st done fs).2.log = uninitializedUses st.log
  | [], _, _ => rfl
  | f :: fs, st, done => by
    rw [declareFunctions]
    dsimp only
    rw [uses_declareFunctions file fs, ← uses_checkParams (settingOf file f) f.params st,
      declareFunction]
    split
    · rfl
    · exact uninitializedUses_other _ _ _ rfl

theorem filter_visits_declareFunctions (file : Option String) :
    ∀ (fs : List FunctionDecl) {before : List FunctionDecl} {st : State}
      (done : List (FunctionDecl × Bool)), Declared st.table before →
        ((declareFunctions file st done fs).1.filter visits).map Prod.fst =
          (done.reverse.filter visits).map Prod.fst ++ checkedFrom before fs
  | [], _, _, _, _ => (List.append_nil _).symm
  | f :: fs, before, st, done, h => by
    have htab := (checkParams_sound (settingOf file f) f.params st).1
    have hsome := h.declareFunction?_isSome f
    rw [declareFunctions, declareFunction, checkedFrom]
    dsimp only
    rw [htab]
    cases hd : st.table.declareFunction? Table.root f.name f.returnType
        (Scope.numbered (f.params.map fun p => (p.name, p.ty))) with
    | none =>
      rw [hd] at hsome
      have hsig : (signature? before f.name f.arity).isSome = true := by simpa using hsome.symm
      dsimp only
      rw [if_pos hsig, filter_visits_declareFunctions file fs _ (htab.symm ▸ h)]
      simp [visits]
    | some r =>
      rw [hd] at hsome
      have hsig : ¬ (signature? before f.name f.arity).isSome = true := by simpa using hsome.symm
      dsimp only
      rw [if_neg hsig, filter_visits_declareFunctions file fs _ (h.declareFunction? hd).1]
      cases hext : f.isExternal <;> simp [visits, hext]

/-- **Unassigned variables**: what is reported of them is, function by function in the order of the
reads, each read of a declaration that is not definitely assigned. -/
theorem uninitializedUses_eq (p : Program) : uninitializedUses (checkFresh p).2.log =
    (checkedFrom [] p.functions).flatMap fun f => unassignedReads p.source f.reads := by
  have hlog : uninitializedUses (declarations p).2.log = [] :=
    uses_declareFunctions p.source p.functions ⟨.initial, .empty⟩ []
  obtain ⟨gs, hgs⟩ : ∃ gs, Declared (declarations p).2.table gs :=
    declareFunctions_declared p.functions declared_initial
  have hbodies := uses_checkBodies p.source (declarations p).1 hgs.stands
  have hvisits : ((declarations p).1.filter visits).map Prod.fst = checkedFrom [] p.functions :=
    filter_visits_declareFunctions p.source p.functions [] declared_initial
  rw [hlog, List.nil_append, hvisits] at hbodies
  refine Eq.trans ?_ hbodies
  rw [checkFresh_eq]
  unfold askEntry
  dsimp only
  split
  · rfl
  · exact uninitializedUses_other _ _ _ rfl

end Typing

end Quill
