import Quill.Lowering.Program
import Quill.Proofs.Typing.Visits

/-! # Checking overwrites every annotation

`bare` takes the annotations of a tree away.  Checking writes the annotation of each expression that
it visits before it reads it, so it does the same with a tree and with its bare form
(`infer_bare`, `checkStmt_bare`); and since it changes nothing but annotations, the checked tree has
the bare form that the tree had (`bare_infer`, `bare_checkStmt`).

The bodies of external functions, and of functions that could not be declared, are not visited;
lowering does not look at the former, and nothing is lowered after the latter. -/

namespace Quill

open Lowering Typing

/-! ### Bare trees -/

def Note.bare (n : Note) : Note := { n with ty := .undefined }

@[simp] theorem Note.span_bare (n : Note) : n.bare.span = n.span := rfl

mutual

/-- The expression without annotations. -/
def Expr.bare : Expr → Expr
  | .literal n v => .literal n.bare v
  | .name n x => .name n.bare x
  | .arith n op l r => .arith n.bare op l.bare r.bare
  | .compare n op l r => .compare n.bare op l.bare r.bare
  | .logic n op l r => .logic n.bare op l.bare r.bare
  | .not n x => .not n.bare x.bare
  | .index n a is => .index n.bare a (exprsBare is)
  | .call n f args => .call n.bare f (exprsBare args)
  | .newArray n e dims => .newArray n.bare e (exprsBare dims)

/-- The expressions of a list without annotations. -/
def exprsBare : List Expr → List Expr
  | [] => []
  | e :: es => e.bare :: exprsBare es

end

mutual

/-- The statement without annotations. -/
def Stmt.bare : Stmt → Stmt
  | .expr span e => .expr span e.bare
  | .decl span x ty init => .decl span x ty (init.map Expr.bare)
  | .assign span x target value => .assign span x target value.bare
  | .assignElement span a is target value =>
    .assignElement span a (exprsBare is) target value.bare
  | .ifThen span cond body => .ifThen span cond.bare (stmtsBare body)
  | .ifElse span cond body other => .ifElse span cond.bare (stmtsBare body) (stmtsBare other)
  | .while span cond body => .while span cond.bare (stmtsBare body)
  | .doWhile span body cond => .doWhile span (stmtsBare body) cond.bare
  | .ret span value => .ret span (value.map Expr.bare)
  | .block span body => .block span (stmtsBare body)

/-- The statements of a list without annotations. -/
def stmtsBare : List Stmt → List Stmt
  | [] => []
  | s :: ss => s.bare :: stmtsBare ss

end

/-- The function without annotations. -/
def FunctionDecl.bare (f : FunctionDecl) : FunctionDecl := { f with body := stmtsBare f.body }

def Program.bare (p : Program) : Program := { p with functions := p.functions.map .bare }

namespace Typing

open Report (Log)

/-! ### Expressions -/

mutual

/-- The annotations that an expression comes with do not matter. -/
theorem infer_bare (s : Sight) : ∀ (log : Log) (e : Expr), infer s log e.bare = infer s log e
  | _, .literal _ _ | _, .name _ _ => rfl
  | log, .arith n op l r | log, .compare n op l r | log, .logic n op l r => by
    simp only [Expr.bare, infer, Note.span_bare, infer_bare s log l, infer_bare s _ r]
  | log, .not n x => by
    simp only [Expr.bare, infer, Note.span_bare, infer_bare s log x]
  | log, .index n a is => by
    simp only [Expr.bare, infer, Note.span_bare, inferAll_bare s _ _ _ is]
  | log, .call n f args => by
    simp only [Expr.bare, infer, Note.span_bare, inferAll_bare s _ _ _ args]
  | log, .newArray n e dims => by
    simp only [Expr.bare, infer, Note.span_bare, inferAll_bare s _ _ _ dims]

theorem inferAll_bare (s : Sight) (integers : Option String) :
    ∀ (log : Log) (done es : List Expr),
      inferAll s integers log done (exprsBare es) = inferAll s integers log done es
  | _, _, [] => rfl
  | log, done, e :: es => by
    simp only [exprsBare, inferAll, infer_bare s log e, inferAll_bare s integers _ _ es]

end

mutual

theorem bare_infer (s : Sight) : ∀ (log : Log) (e : Expr), (infer s log e).1.bare = e.bare
  | _, .literal _ _ | _, .name _ _ => rfl
  | log, .arith n op l r | log, .compare n op l r | log, .logic n op l r => by
    simp only [Expr.bare, infer, bare_infer s log l, bare_infer s _ r]
    rfl
  | log, .not n x => by
    simp only [Expr.bare, infer, bare_infer s log x]
    rfl
  | log, .index n a is => by
    simp only [Expr.bare, infer, bare_inferAll s _ _ is]
    rfl
  | log, .call n f args => by
    simp only [Expr.bare, infer, bare_inferAll s _ _ args]
    rfl
  | log, .newArray n e dims => by
    simp only [Expr.bare, infer, bare_inferAll s _ _ dims]
    rfl

theorem bare_inferAll (s : Sight) (integers : Option String) :
    ∀ (log : Log) (es : List Expr), exprsBare (inferAll s integers log [] es).1 = exprsBare es
  | _, [] => rfl
  | log, e :: es => by
    rw [inferAll_cons, exprsBare, exprsBare, bare_infer s log e, bare_inferAll s integers _ es]

end

/-! ### Statements -/

section

variable (st : State) (c : Setting) (scope : Nat)

theorem State.infer_bare (e : Expr) : st.infer c scope e.bare = st.infer c scope e := by
  rw [State.infer, Typing.infer_bare, ← State.infer]

theorem State.condition_bare (e : Expr) : st.condition c scope e.bare = st.condition c scope e := by
  rw [State.condition, State.infer_bare, ← State.condition]

theorem State.bare_condition (e : Expr) : (st.condition c scope e).1.bare = e.bare := by
  obtain ⟨log, h⟩ := st.condition_infers c scope e
  rw [← h, bare_infer]

theorem State.declare_bare (span : Span) (x : String) (ty : Ty) (init : Option Expr) :
    st.declare c scope span x ty (init.map Expr.bare) = st.declare c scope span x ty init := by
  cases init with
  | none => rfl
  | some e =>
    rw [Option.map_some]
    unfold State.declare
    simp only [State.infer_bare]

theorem State.bare_declare (span : Span) (x : String) (ty : Ty) (init : Option Expr) :
    (st.declare c scope span x ty init).1.map Expr.bare = init.map Expr.bare := by
  cases init with
  | none =>
    unfold State.declare
    dsimp only
    split <;> rfl
  | some e =>
    obtain ⟨st₁, _, h, _⟩ := st.declare_init c scope span x ty e
    rw [h, Option.map_some, Option.map_some, State.infer, bare_infer]

theorem State.ret_bare (span : Span) (value : Option Expr) :
    st.ret c scope span (value.map Expr.bare) = st.ret c scope span value := by
  cases value with
  | none => rfl
  | some e =>
    rw [Option.map_some]
    unfold State.ret
    simp only [State.infer_bare]

theorem State.bare_ret (span : Span) (value : Option Expr) :
    (st.ret c scope span value).1.map Expr.bare = value.map Expr.bare := by
  cases value with
  | none =>
    unfold State.ret
    dsimp only
    split <;> rfl
  | some e => rw [(st.ret_value c scope span e).1, Option.map_some, Option.map_some, State.infer,
      bare_infer]

theorem State.assignElement_bare (a : String) (is : List Expr) (target : Span) (value : Expr) :
    st.assignElement c scope a (exprsBare is) target value =
      st.assignElement c scope a is target value := by
  unfold State.assignElement inferElement
  simp only [inferAll_bare]

theorem State.bare_assignElement (a : String) (is : List Expr) (target : Span) (value : Expr) :
    exprsBare (st.assignElement c scope a is target value).1 = exprsBare is := by
  have h : (st.assignElement c scope a is target value).1 =
      (inferElement ⟨st.table, scope, c.file⟩ st.log a is target).2.1 := by
    unfold State.assignElement
    dsimp only
    split
    · split <;> rfl
    · rfl
  rw [h]
  exact bare_inferAll _ _ _ is

end

mutual

theorem checkStmt_bare (c : Setting) :
    ∀ (scope : Nat) (st : State) (s : Stmt), checkStmt c scope st s.bare = checkStmt c scope st s
  | scope, st, .expr span e => by
    simp only [Stmt.bare, checkStmt, State.infer_bare]
  | scope, st, .decl span x ty init => by
    simp only [Stmt.bare, checkStmt, State.declare_bare]
  | scope, st, .assign span x target value => by
    simp only [Stmt.bare, checkStmt, State.infer_bare]
  | scope, st, .assignElement span a is target value => by
    simp only [Stmt.bare, checkStmt, State.infer_bare, State.assignElement_bare]
  | scope, st, .ifThen span cond body | scope, st, .while span cond body
  | scope, st, .doWhile span body cond => by
    simp only [Stmt.bare, checkStmt, State.condition_bare, checkStmts_bare c _ _ _ _ body]
  | scope, st, .ifElse span cond body other => by
    simp only [Stmt.bare, checkStmt, State.condition_bare, checkStmts_bare c _ _ _ _ body,
      checkStmts_bare c _ _ _ _ other]
  | scope, st, .ret span value => by
    simp only [Stmt.bare, checkStmt, State.ret_bare]
  | scope, st, .block span body => by
    simp only [Stmt.bare, checkStmt, checkStmts_bare c _ _ _ _ body]

theorem checkStmts_bare (c : Setting) :
    ∀ (scope : Nat) (st : State) (done : List Stmt) (returns : Bool) (ss : List Stmt),
      checkStmts c scope st done returns (stmtsBare ss) = checkStmts c scope st done returns ss
  | _, _, _, _, [] => rfl
  | scope, st, done, returns, s :: ss => by
    simp only [stmtsBare, checkStmts, checkStmt_bare c scope st s, checkStmts_bare c _ _ _ _ ss]

end

mutual

theorem bare_checkStmt (c : Setting) :
    ∀ (scope : Nat) (st : State) (s : Stmt), (checkStmt c scope st s).1.bare = s.bare
  | scope, st, .expr span e | scope, st, .assign span x target e => by
    simp only [Stmt.bare, checkStmt, State.infer, bare_infer]
  | scope, st, .decl span x ty init => by
    simp only [Stmt.bare, checkStmt, State.bare_declare]
  | scope, st, .assignElement span a is target value => by
    simp only [Stmt.bare, checkStmt, State.infer, bare_infer, State.bare_assignElement]
  | scope, st, .ifThen span cond body | scope, st, .while span cond body
  | scope, st, .doWhile span body cond => by
    simp only [Stmt.bare, checkStmt, State.bare_condition, bare_checkStmts c _ _ body]
  | scope, st, .ifElse span cond body other => by
    simp only [Stmt.bare, checkStmt, State.bare_condition, bare_checkStmts c _ _ body,
      bare_checkStmts c _ _ other]
  | scope, st, .ret span value => by
    simp only [Stmt.bare, checkStmt, State.bare_ret]
  | scope, st, .block span body => by
    simp only [Stmt.bare, checkStmt, bare_checkStmts c _ _ body]

theorem bare_checkStmts (c : Setting) :
    ∀ (scope : Nat) (st : State) (ss : List Stmt),
      stmtsBare (checkStmts c scope st [] false ss).1 = stmtsBare ss
  | _, _, [] => rfl
  | scope, st, s :: ss => by
    rw [checkStmts_cons, stmtsBare, stmtsBare, bare_checkStmt c scope st s,
      bare_checkStmts c scope _ ss]

end

/-! ### Functions -/

theorem checkBody_bare (file : Option String) (st : State) (f : FunctionDecl) :
    checkBody file st f.bare = checkBody file st f := by
  unfold checkBody FunctionDecl.bare
  simp only [checkStmts_bare]
  rfl

theorem bare_checkBody (file : Option String) (st : State) (f : FunctionDecl) :
    (checkBody file st f).1.bare = f.bare := by
  unfold checkBody FunctionDecl.bare
  simp only [bare_checkStmts]

theorem annotates_of_bare {f f' : FunctionDecl} (h : f.bare = f'.bare) : Annotates f f' := by
  refine ⟨f'.body, ?_⟩
  obtain ⟨_, _, _, _, _, _⟩ := f
  obtain ⟨_, _, _, _, _, _⟩ := f'
  obtain ⟨rfl, rfl, rfl, _, rfl, rfl⟩ := FunctionDecl.mk.inj h
  rfl

/-- Two functions that differ in annotations only, one of them as declared as the other. -/
def Matches (d d' : FunctionDecl × Bool) : Prop := d.1.bare = d'.1.bare ∧ d.2 = d'.2

/-- Checking comes to the body of the function. -/
def visits (d : FunctionDecl × Bool) : Bool := d.2 && !d.1.isExternal

theorem Matches.visits_eq {d d' : FunctionDecl × Bool} (h : Matches d d') :
    visits d = visits d' := by
  have hext := congrArg FunctionDecl.isExternal h.1
  unfold visits
  rw [h.2]
  exact congrArg (d'.2 && !·) hext

theorem checkBodies_matches (file : Option String) {ds ds' : List (FunctionDecl × Bool)}
    (h : List.Forall₂ Matches ds ds') : ∀ st : State,
      (checkBodies file st [] ds).2 = (checkBodies file st [] ds').2 ∧
      ∀ (i : Nat) d, ds[i]? = some d → visits d = true →
        (checkBodies file st [] ds).1[i]? = (checkBodies file st [] ds').1[i]? := by
  induction h with
  | nil => simp [checkBodies]
  | @cons d d' ds ds' hd _ ih =>
    intro st
    obtain ⟨f, b⟩ := d
    obtain ⟨f', b'⟩ := d'
    have hvis : (b && !f.isExternal) = (b' && !f'.isExternal) := hd.visits_eq
    rw [checkBodies_cons, checkBodies_cons, ← hvis]
    cases hv : (b && !f.isExternal) with
    | true =>
      have hbody : checkBody file st f = checkBody file st f' := by
        rw [← checkBody_bare, hd.1, checkBody_bare]
      obtain ⟨hst, hfs⟩ := ih (checkBody file st f').2
      simp only [if_true, hbody]
      refine ⟨hst, fun i e hi he => ?_⟩
      cases i with
      | zero => rfl
      | succ i => exact hfs i e hi he
    | false =>
      obtain ⟨hst, hfs⟩ := ih st
      simp only [Bool.false_eq_true, if_false]
      refine ⟨hst, fun i e hi he => ?_⟩
      cases i with
      | zero =>
        obtain rfl := Option.some.inj hi
        exact absurd (hv.symm.trans he) Bool.false_ne_true
      | succ i => exact hfs i e hi he

theorem checkBodies_getElem?_of_not_visits (file : Option String) :
    ∀ (ds : List (FunctionDecl × Bool)) (st : State) (i : Nat) (d : FunctionDecl × Bool),
      ds[i]? = some d → visits d = false → (checkBodies file st [] ds).1[i]? = some d.1 := by
  intro ds
  induction ds with
  | nil => exact fun _ _ _ hi => nomatch hi
  | cons e ds ih =>
    obtain ⟨f, b⟩ := e
    intro st i d hi hd
    rw [checkBodies_cons]
    cases i with
    | zero =>
      obtain rfl := Option.some.inj hi
      have hnot : (b && !f.isExternal) = false := hd
      simp [hnot]
    | succ i => exact ih _ i d hi hd

theorem bare_checkBodies (file : Option String) :
    ∀ (ds : List (FunctionDecl × Bool)) (st : State),
      (checkBodies file st [] ds).1.map .bare = ds.map fun d => d.1.bare := by
  intro ds
  induction ds with
  | nil => exact fun _ => rfl
  | cons d ds ih =>
    obtain ⟨f, b⟩ := d
    intro st
    rw [checkBodies_cons, List.map_cons, List.map_cons, ih]
    split
    · rw [bare_checkBody]
    · rfl

/-! ### Programs -/

theorem bare_checkFresh (p : Program) : (checkFresh p).1.bare = p.bare := by
  rw [checkFresh_eq, Program.bare, Program.bare]
  dsimp only
  rw [checkedBodies, bare_checkBodies, ← map_fst_declarations p, List.map_map]
  rfl

/-- Declaring the functions of programs that differ in annotations only gives the same table and the
same reports, and fails for the same functions. -/
theorem declarations_matches {p q : Program} (h : p.bare = q.bare) :
    (declarations p).2 = (declarations q).2 ∧
      List.Forall₂ Matches (declarations p).1 (declarations q).1 := by
  obtain ⟨hfs, hsource⟩ := Program.mk.inj h
  have hall : List.Forall₂ (fun f f' => f.bare = f'.bare) p.functions q.functions := by
    rw [← List.forall₂_eq_eq_eq, List.forall₂_map_left_iff, List.forall₂_map_right_iff] at hfs
    exact hfs
  exact declarations_annotates (fun _ _ => annotates_of_bare) hsource hall

/-- Checking comes to the body of the function with a number: it could be declared, and it is not
external. -/
def checks (p : Program) (i : Nat) : Bool := (declarations p).1[i]?.any visits

theorem checkFresh_getElem?_of_not_checks {p : Program} {i : Nat} (h : checks p i = false) :
    (checkFresh p).1.functions[i]? = p.functions[i]? := by
  have hget : p.functions[i]? = ((declarations p).1[i]?).map Prod.fst := by
    rw [← List.getElem?_map, map_fst_declarations]
  rw [checkFresh_eq, hget]
  cases hi : (declarations p).1[i]? with
  | some d =>
    have hd : visits d = false := by simpa [checks, hi] using h
    exact checkBodies_getElem?_of_not_visits p.source _ _ i d hi hd
  | none =>
    obtain ⟨fs', hfs', hall⟩ :=
      checkBodies_annotates p.source (declarations p).1 (declarations p).2 []
    dsimp only
    rw [checkedBodies, hfs', List.reverse_nil, List.nil_append, Option.map_none,
      List.getElem?_eq_none_iff, ← hall.length_eq]
    exact List.getElem?_eq_none_iff.mp hi

theorem checkFresh_matches {p q : Program} (h : p.bare = q.bare) :
    (checkFresh p).2 = (checkFresh q).2 ∧
      ∀ i, checks p i = true →
        (checkFresh p).1.functions[i]? = (checkFresh q).1.functions[i]? := by
  obtain ⟨_, hsource⟩ := Program.mk.inj h
  obtain ⟨hst, hall⟩ := declarations_matches h
  obtain ⟨hst', hfs⟩ := checkBodies_matches q.source hall (declarations q).2
  rw [checkFresh_eq, checkFresh_eq, checkedBodies, checkedBodies, hsource, hst]
  refine ⟨congrArg (askEntry q.source) hst', fun i hi => ?_⟩
  obtain ⟨d, hd, hv⟩ := (Option.any_eq_true _ _).mp hi
  exact hfs i d hd hv

/-- Checking what has been checked changes nothing. -/
theorem checkFresh_checkFresh (p : Program) : checkFresh (checkFresh p).1 = checkFresh p := by
  obtain ⟨hst, hfs⟩ := checkFresh_matches (bare_checkFresh p)
  have hfunctions : (checkFresh (checkFresh p).1).1.functions = (checkFresh p).1.functions := by
    apply List.ext_getElem?
    intro i
    cases hi : checks (checkFresh p).1 i with
    | true => exact hfs i hi
    | false => exact checkFresh_getElem?_of_not_checks hi
  exact Prod.ext (congrArg (Program.mk · p.source) hfunctions) hst

/-! ### Images -/

/-- Two functions that are lowered alike: they differ in the bodies of external functions only. -/
def LowersAs (f f' : FunctionDecl) : Prop := Annotates f f' ∧ (f.isExternal = false → f = f')

theorem declareMethods_annotates {fs fs' : List FunctionDecl} (h : List.Forall₂ Annotates fs fs') :
    ∀ d : Lowering.Declared, declareMethods d fs = declareMethods d fs' := by
  induction h with
  | nil => exact fun _ => rfl
  | @cons f f' fs fs' hf _ ih =>
    intro d
    obtain ⟨body, rfl⟩ := hf
    have hd : declareMethod d { f with body } = declareMethod d f := rfl
    rw [declareMethods, declareMethods, hd]
    exact congrArg (declareMethod d f >>= ·) (funext ih)

theorem lowerFunctions_lowersAs {fs fs' : List FunctionDecl} (h : List.Forall₂ LowersAs fs fs')
    (methods : Methods) : ∀ (pool : Array String) (done : Array Code.Method),
      lowerFunctions methods pool done fs = lowerFunctions methods pool done fs' := by
  induction h with
  | nil => exact fun _ _ => rfl
  | @cons f f' fs fs' hf _ ih =>
    intro pool done
    obtain ⟨⟨body, rfl⟩, heq⟩ := hf
    rw [lowerFunctions, lowerFunctions]
    cases hext : f.isExternal with
    | true =>
      have hext' : FunctionDecl.isExternal { f with body } = true := hext
      rw [hext', if_pos rfl, if_pos rfl]
      split
      · exact ih _ _
      · rfl
    | false =>
      rw [← heq hext, hext, if_neg Bool.false_ne_true, if_neg Bool.false_ne_true]
      refine congrArg (lowerFunction methods pool f >>= ·) (funext fun r => ih _ _)

theorem lowerProgram_lowersAs {p q : Program} (h : List.Forall₂ LowersAs p.functions q.functions) :
    lowerProgram p = lowerProgram q := by
  unfold lowerProgram
  rw [declareMethods_annotates (h.imp fun _ _ hf => hf.1)]
  refine congrArg (_ >>= ·) (funext fun d => ?_)
  rw [lowerFunctions_lowersAs h]

/-- Without a report checking has come to every function that is not external. -/
theorem checks_of_clean {p : Program} (hc : Clean (checkFresh p).2.log) {i : Nat}
    {f : FunctionDecl} (hi : (checkFresh p).1.functions[i]? = some f)
    (hext : f.isExternal = false) : checks p i = true := by
  have hann := (checkFresh_sound hc).2
  obtain ⟨g, hg, body, rfl⟩ := Forall₂.getElem? hann hi
  have hd : (declarations p).1 = p.functions.map (·, true) := (checkFresh_staged hc).functions
  have hext' : g.isExternal = false := hext
  simp [checks, hd, hg, visits, hext']

/-- After a check without reports the functions of the two programs are lowered alike. -/
theorem checkFresh_lowersAs {p q : Program} (h : p.bare = q.bare)
    (hc : Clean (checkFresh p).2.log) :
    List.Forall₂ LowersAs (checkFresh p).1.functions (checkFresh q).1.functions := by
  have hfs := (checkFresh_matches h).2
  have hbare := (Program.mk.inj ((bare_checkFresh p).trans (h.trans (bare_checkFresh q).symm))).1
  have hlen := congrArg List.length hbare
  rw [List.length_map, List.length_map] at hlen
  refine List.forall₂_iff_get.mpr ⟨hlen, fun i hi hi' => ⟨annotates_of_bare ?_, fun hext => ?_⟩⟩
  · have hget := congrArg (·[i]?) hbare
    simpa [hi, hi'] using hget
  · have hget := List.getElem?_eq_getElem hi
    have heq := hfs i (checks_of_clean hc hget hext)
    rw [hget, List.getElem?_eq_getElem hi'] at heq
    exact Option.some.inj heq

/-- **Annotations do not matter**: two programs that differ in annotations only are checked with the
same reports and the same table, and the functions that checking comes to are annotated alike.  If
nothing is reported, they have the same image.  So checking again changes nothing. -/
theorem checkFresh_erased {p q : Program} (h : p.bare = q.bare) :
    (checkFresh p).2 = (checkFresh q).2 ∧
    (∀ i, checks p i = true →
      (checkFresh p).1.functions[i]? = (checkFresh q).1.functions[i]?) ∧
    (Clean (checkFresh p).2.log →
      lowerProgram (checkFresh p).1 = lowerProgram (checkFresh q).1) ∧
    checkFresh (checkFresh p).1 = checkFresh p := by
  obtain ⟨hst, hfs⟩ := checkFresh_matches h
  exact ⟨hst, hfs, fun hc => lowerProgram_lowersAs (checkFresh_lowersAs h hc),
    checkFresh_checkFresh p⟩

/-- A program with wrong annotations. -/
def misnotedProgram : Program where
  functions := [
    { name := "main", params := [], returnType := .integer,
      body := [
        .ret .dummy (some (.arith ⟨.string, .dummy⟩ .add
          (.literal ⟨.boolean, .dummy⟩ (.integer 1)) (.literal default (.integer 2))))],
      external := none, span := .dummy }]
  source := none

theorem misnotedProgram_erased :
    checks misnotedProgram 0 = true ∧ Clean (checkFresh misnotedProgram).2.log ∧
    (checkFresh misnotedProgram).2 = (checkFresh misnotedProgram.bare).2 ∧
    (checkFresh misnotedProgram).1.functions[0]? =
      (checkFresh misnotedProgram.bare).1.functions[0]? ∧
    lowerProgram (checkFresh misnotedProgram).1 =
      lowerProgram (checkFresh misnotedProgram.bare).1 := by
  have hvisits : checks misnotedProgram 0 = true := by decide +kernel
  have hclean : Clean (checkFresh misnotedProgram).2.log := by
    unfold Clean
    decide +kernel
  have hbare : misnotedProgram.bare = misnotedProgram.bare.bare := rfl
  obtain ⟨hst, hfs, hlower, _⟩ := checkFresh_erased hbare
  exact ⟨hvisits, hclean, hst, hfs 0 hvisits, hlower hclean⟩

end Typing

end Quill
