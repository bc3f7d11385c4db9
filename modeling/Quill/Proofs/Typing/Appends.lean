import Quill.Proofs.Report.Log
import Quill.Proofs.Typing.Sound
import Quill.Typing.Program

/-! # Reports are only added

Checking never reads the log: it adds its reports behind those that are there, and everything else
that it gives is the same whatever was reported before.  So what a part of a program reports can be
told from a run that starts with an empty log. -/

namespace Quill.Typing

open Report (Log Finding)
open Scope (Table)

theorem addFinding_append (file : Option String) (log log' : Log) (f : Finding) (span : Span) :
    addFinding file (log ++ log') f span = log ++ addFinding file log' f span :=
  Log.append_add log log' _

/-! ### Expressions -/

namespace Sight

variable (s : Sight) (log log' : Log)

theorem add_append (f : Finding) (span : Span) :
    s.add (log ++ log') f span = log ++ s.add log' f span := addFinding_append _ _ _ _ _

theorem read_append (x : String) (span : Span) :
    s.read (log ++ log') x span = ((s.read log' x span).1, log ++ (s.read log' x span).2) := by
  unfold read
  split
  · rw [add_append]
  · split
    · rfl
    · rw [add_append]

theorem combine_append (span : Span) (op : String) (lhs rhs : Ty) (result : Option Ty)
    (unknown : Ty) : s.combine (log ++ log') span op lhs rhs result unknown =
      ((s.combine log' span op lhs rhs result unknown).1,
        log ++ (s.combine log' span op lhs rhs result unknown).2) := by
  unfold combine
  split
  · rfl
  · split
    · rfl
    · rw [add_append]

theorem negate_append (span : Span) (operand : Ty) :
    s.negate (log ++ log') span operand =
      ((s.negate log' span operand).1, log ++ (s.negate log' span operand).2) := by
  unfold negate
  split
  · rfl
  · rw [add_append]

theorem expectInteger_append (what : String) (e : Expr) :
    s.expectInteger (log ++ log') what e = log ++ s.expectInteger log' what e := by
  unfold expectInteger
  split
  · rfl
  · rw [add_append]

theorem element_append (span : Span) (a : String) (base : Ty) (count : Nat) :
    s.element (log ++ log') span a base count =
      ((s.element log' span a base count).1, log ++ (s.element log' span a base count).2) := by
  unfold element
  split
  · rfl
  · split
    · rfl
    · dsimp only
      rw [add_append]
  · split
    · rfl
    · rw [add_append]

theorem array_append (span : Span) (element : Element) (count : Nat) :
    s.array (log ++ log') span element count =
      ((s.array log' span element count).1, log ++ (s.array log' span element count).2) := by
  unfold array
  split
  · rfl
  · rw [add_append]

theorem arguments_append (name : String) (isBuiltin : Bool) (args : List Expr) :
    ∀ (log' : Log) (i : Nat) (params : List Scope.Argument),
      s.arguments name isBuiltin (log ++ log') i args params =
        log ++ s.arguments name isBuiltin log' i args params := by
  induction args with
  | nil => exact fun _ _ _ => rfl
  | cons arg args ih =>
    intro log' i params
    cases params with
    | nil => rfl
    | cons param params =>
      rw [arguments, arguments, ← ih]
      split
      · rw [add_append]
      · split
        · rw [add_append]
        · rfl

theorem call_append (span : Span) (name : String) (args : List Expr) :
    s.call (log ++ log') span name args =
      ((s.call log' span name args).1, log ++ (s.call log' span name args).2) := by
  unfold call
  split
  · rw [arguments_append]
  · split
    · rw [add_append]
    · rw [add_append]

end Sight

mutual

theorem infer_append (s : Sight) (log : Log) :
    ∀ (log' : Log) (e : Expr),
      infer s (log ++ log') e = ((infer s log' e).1, log ++ (infer s log' e).2)
  | _, .literal _ _ => rfl
  | log', .name n x => by
    simp only [infer, Sight.read_append]
  | log', .arith n op l r | log', .compare n op l r | log', .logic n op l r => by
    simp only [infer, infer_append s log log' l, infer_append s log _ r, Sight.combine_append]
  | log', .not n x => by
    simp only [infer, infer_append s log log' x, Sight.negate_append]
  | log', .index n a is => by
    simp only [infer, Sight.read_append, inferAll_append s _ log _ _ is, Sight.element_append]
  | log', .call n f args => by
    simp only [infer, inferAll_append s _ log _ _ args, Sight.call_append]
  | log', .newArray n e dims => by
    simp only [infer, inferAll_append s _ log _ _ dims, Sight.array_append]

theorem inferAll_append (s : Sight) (integers : Option String) (log : Log) :
    ∀ (log' : Log) (done es : List Expr), inferAll s integers (log ++ log') done es =
      ((inferAll s integers log' done es).1, log ++ (inferAll s integers log' done es).2)
  | _, _, [] => rfl
  | log', done, e :: es => by
    rw [inferAll, infer_append s log log' e, inferAll]
    cases integers with
    | none => exact inferAll_append s none log _ _ es
    | some what =>
      dsimp only
      rw [Sight.expectInteger_append]
      exact inferAll_append s (some what) log _ _ es

end

/-- The check of an expression, told from the one that starts without reports. -/
theorem infer_eq (s : Sight) (log : Log) (e : Expr) :
    infer s log e = ((infer s .empty e).1, log ++ (infer s .empty e).2) := by
  rw [← infer_append, Log.append_empty]

theorem inferAll_eq (s : Sight) (integers : Option String) (log : Log) (es : List Expr) :
    inferAll s integers log [] es =
      ((inferAll s integers .empty [] es).1, log ++ (inferAll s integers .empty [] es).2) := by
  rw [← inferAll_append, Log.append_empty]

theorem inferElement_append (s : Sight) (log log' : Log) (a : String) (is : List Expr)
    (span : Span) : inferElement s (log ++ log') a is span =
      ((inferElement s log' a is span).1, (inferElement s log' a is span).2.1,
        log ++ (inferElement s log' a is span).2.2) := by
  simp only [inferElement, Sight.read_append, inferAll_append, Sight.element_append]

/-! ### Statements -/

namespace State

/-- The state with its reports behind others. -/
def behind (log : Log) (st : State) : State := { st with log := log ++ st.log }

variable (log : Log) (st : State) (c : Setting) (scope : Nat)

@[simp] theorem table_behind : (st.behind log).table = st.table := rfl

theorem withTable_behind (table : Table) :
    State.mk table (st.behind log).log = behind log ⟨table, st.log⟩ := rfl

theorem behind_of_empty (h : st.log = .empty) : st.behind log = ⟨st.table, log⟩ := by
  rw [behind, h, Log.append_empty]

theorem behind_empty (table : Table) : behind log ⟨table, .empty⟩ = ⟨table, log⟩ :=
  behind_of_empty log _ rfl

theorem add_behind (f : Finding) (span : Span) :
    (st.behind log).add c f span = (st.add c f span).behind log :=
  congrArg (State.mk st.table) (addFinding_append _ _ _ _ _)

theorem infer_behind (e : Expr) : (st.behind log).infer c scope e =
    ((st.infer c scope e).1, (st.infer c scope e).2.behind log) := by
  unfold infer behind
  simp only [infer_append]

theorem expectAssignable_behind (value : Expr) (target : Ty) (context : String) :
    (st.behind log).expectAssignable c value target context =
      (st.expectAssignable c value target context).behind log := by
  unfold expectAssignable
  split
  · rfl
  · rw [add_behind]

theorem condition_behind (e : Expr) : (st.behind log).condition c scope e =
    ((st.condition c scope e).1, (st.condition c scope e).2.behind log) := by
  unfold condition
  rw [infer_behind]
  dsimp only
  split
  · rfl
  · rw [add_behind]

theorem declare_behind (span : Span) (x : String) (ty : Ty) (init : Option Expr) :
    (st.behind log).declare c scope span x ty init =
      ((st.declare c scope span x ty init).1,
        (st.declare c scope span x ty init).2.behind log) := by
  have hvar : (if ty.isVariable then st.behind log
      else (st.behind log).add c (.invalidVariableType x ty.name) span) =
      (if ty.isVariable then st
        else st.add c (.invalidVariableType x ty.name) span).behind log := by
    split
    · rfl
    · rw [add_behind]
  unfold declare
  dsimp only
  rw [hvar]
  generalize (if ty.isVariable then st else st.add c (.invalidVariableType x ty.name) span) = st₁
  cases init with
  | none =>
    dsimp only [table_behind]
    split
    · rw [add_behind]
    · rfl
  | some e =>
    dsimp only
    rw [infer_behind]
    dsimp only [table_behind]
    split
    · rw [add_behind]
    · dsimp only
      rw [withTable_behind]
      split
      · rw [expectAssignable_behind]
        rfl
      · rfl

theorem assign_behind (x : String) (target : Span) (value : Expr) :
    (st.behind log).assign c scope x target value =
      (st.assign c scope x target value).behind log := by
  unfold assign
  rw [table_behind]
  split
  · rw [add_behind]
  · dsimp only
    rw [expectAssignable_behind]
    rfl

theorem assignElement_behind (a : String) (is : List Expr) (target : Span) (value : Expr) :
    (st.behind log).assignElement c scope a is target value =
      ((st.assignElement c scope a is target value).1,
        (st.assignElement c scope a is target value).2.behind log) := by
  have hel := inferElement_append ⟨st.table, scope, c.file⟩ log st.log a is target
  have hmk : ∀ log', State.mk st.table (log ++ log') = behind log ⟨st.table, log'⟩ := fun _ => rfl
  unfold assignElement
  rw [table_behind, behind, hel]
  dsimp only
  rw [hmk]
  split
  · split
    · rw [add_behind]
    · rw [expectAssignable_behind]
  · rw [expectAssignable_behind]

theorem ret_behind (span : Span) (value : Option Expr) :
    (st.behind log).ret c scope span value =
      ((st.ret c scope span value).1, (st.ret c scope span value).2.behind log) := by
  unfold ret
  cases value with
  | none =>
    dsimp only
    split
    · rfl
    · rw [add_behind]
  | some e =>
    dsimp only
    rw [infer_behind]
    dsimp only
    split
    · split
      · rw [add_behind]
      · rfl
    · rw [expectAssignable_behind]

end State

mutual

theorem checkStmt_behind (c : Setting) (log : Log) :
    ∀ (scope : Nat) (st : State) (s : Stmt), checkStmt c scope (st.behind log) s =
      ((checkStmt c scope st s).1, (checkStmt c scope st s).2.1,
        (checkStmt c scope st s).2.2.behind log)
  | scope, st, .expr _ _ => by
    simp only [checkStmt, State.infer_behind]
  | scope, st, .decl _ _ _ _ => by
    simp only [checkStmt, State.declare_behind]
  | scope, st, .assign _ _ _ _ => by
    simp only [checkStmt, State.infer_behind, State.assign_behind]
  | scope, st, .assignElement _ _ _ _ _ => by
    simp only [checkStmt, State.infer_behind, State.assignElement_behind]
  | scope, st, .ifThen _ cond body | scope, st, .while _ cond body => by
    simp only [checkStmt, State.condition_behind, State.table_behind, State.withTable_behind,
      checkStmts_behind c log _ _ _ _ body]
  | scope, st, .doWhile _ body cond => by
    simp only [checkStmt, State.table_behind, State.withTable_behind,
      checkStmts_behind c log _ _ _ _ body, State.condition_behind]
  | scope, st, .ifElse _ cond body other => by
    simp only [checkStmt, State.condition_behind, State.table_behind, State.withTable_behind,
      checkStmts_behind c log _ _ _ _ body, checkStmts_behind c log _ _ _ _ other]
  | scope, st, .ret _ _ => by
    simp only [checkStmt, State.ret_behind]
  | scope, st, .block _ body => by
    simp only [checkStmt, State.table_behind, State.withTable_behind,
      checkStmts_behind c log _ _ _ _ body]

theorem checkStmts_behind (c : Setting) (log : Log) :
    ∀ (scope : Nat) (st : State) (done : List Stmt) (returns : Bool) (ss : List Stmt),
      checkStmts c scope (st.behind log) done returns ss =
        ((checkStmts c scope st done returns ss).1, (checkStmts c scope st done returns ss).2.1,
          (checkStmts c scope st done returns ss).2.2.behind log)
  | _, _, _, _, [] => rfl
  | scope, st, done, returns, s :: ss => by
    simp only [checkStmts, checkStmt_behind c log scope st s, checkStmts_behind c log _ _ _ _ ss]

end

/-! ### Functions -/

theorem declareParams_behind (c : Setting) (log : Log) (scope : Nat) (params : List Param) :
    ∀ st : State, declareParams c scope (st.behind log) params =
      (declareParams c scope st params).behind log := by
  unfold declareParams
  induction params with
  | nil => exact fun _ => rfl
  | cons p params ih =>
    intro st
    rw [List.foldl_cons, List.foldl_cons, ← ih, State.table_behind]
    split
    · rfl
    · rw [State.add_behind]

theorem checkBody_behind (file : Option String) (log : Log) (st : State) (f : FunctionDecl) :
    checkBody file (st.behind log) f =
      ((checkBody file st f).1, (checkBody file st f).2.behind log) := by
  unfold checkBody
  simp only [State.table_behind, State.withTable_behind, declareParams_behind, checkStmts_behind]
  split
  · rw [State.add_behind]
  · rfl

theorem checkBodies_behind (file : Option String) (log : Log) :
    ∀ (fs : List (FunctionDecl × Bool)) (st : State) (done : List FunctionDecl),
      checkBodies file (st.behind log) done fs =
        ((checkBodies file st done fs).1, (checkBodies file st done fs).2.behind log) := by
  intro fs
  induction fs with
  | nil => exact fun _ _ => rfl
  | cons f fs ih =>
    obtain ⟨f, declared⟩ := f
    intro st done
    unfold checkBodies
    split
    · rw [checkBody_behind]
      exact ih _ _
    · exact ih _ _

end Quill.Typing
