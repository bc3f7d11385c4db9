import Quill.Proofs.Typing.Sight

/-! # Where checking comes to

The blocks of a function, with the scope and the state in which checking comes to them
(`checkedBlock`), the scope and the state in which it looks up the names of a statement
(`checkedAt`), and the identifiers that it makes for the declarations (`identifierOf?`).

A check that reports nothing comes to every block, each declaration makes an identifier, and
distinct declarations of a function make distinct identifiers (`identifierOf?_injective`). -/

namespace Quill.Typing

open Scope (Table)

/-! ### Blocks -/

/-- The block at the end of a way, with the scope and the state in which checking comes to it. -/
def checkedBlock (c : Setting) (start : Nat × State) (body : List Stmt) :
    Way → Option (List Stmt × Nat × State)
  | [] => some (body, start)
  | (k, j) :: way => do
    let (ss, scope, st) ← checkedBlock c start body way
    let s ← ss[k]?
    let inner ← s.bodies[j]?
    return (inner, enter c scope (stateBefore c scope st ss k) s j)

/-- The scope and the state in which checking looks up the names of a statement. -/
def checkedAt (c : Setting) (start : Nat × State) (body : List Stmt) (way : Way) (k : Nat) :
    Option (Nat × State) := do
  let (ss, scope, st) ← checkedBlock c start body way
  let s ← ss[k]?
  return (scope, lookupState c scope (stateBefore c scope st ss k) s)

/-- The identifier that checking makes for the variable which a statement declares. -/
def identifierAt? (c : Setting) (start : Nat × State) (body : List Stmt) (way : Way) (k : Nat) :
    Option Nat := do
  let (ss, scope, st) ← checkedBlock c start body way
  let s ← ss[k]?
  let (x, ty) ← s.declared?
  let (_, id) ← (stateBefore c scope st ss k).table.declareIdentifier? scope x ty
  return id

section

variable {c : Setting} {start : Nat × State} {body inner : List Stmt} {way : Way}
  {k j scope scope' id : Nat} {st' : State}

theorem checkedBlock_cons :
    checkedBlock c start body ((k, j) :: way) = some (inner, scope', st') ↔
      ∃ ss scope st s, checkedBlock c start body way = some (ss, scope, st) ∧ ss[k]? = some s ∧
        s.bodies[j]? = some inner ∧
        enter c scope (stateBefore c scope st ss k) s j = (scope', st') := by
  simp only [checkedBlock, Option.bind_eq_bind, Option.bind_eq_some_iff, Prod.exists,
    Option.pure_def, Option.some.injEq, Prod.mk.injEq]
  grind

theorem checkedAt_eq_some : checkedAt c start body way k = some (scope, st') ↔
    ∃ ss st s, checkedBlock c start body way = some (ss, scope, st) ∧ ss[k]? = some s ∧
      lookupState c scope (stateBefore c scope st ss k) s = st' := by
  simp only [checkedAt, Option.bind_eq_bind, Option.bind_eq_some_iff, Prod.exists, Option.pure_def,
    Option.some.injEq, Prod.mk.injEq]
  grind

theorem identifierAt?_eq_some : identifierAt? c start body way k = some id ↔
    ∃ ss scope st s x ty t', checkedBlock c start body way = some (ss, scope, st) ∧
      ss[k]? = some s ∧ s.declared? = some (x, ty) ∧
      (stateBefore c scope st ss k).table.declareIdentifier? scope x ty = some (t', id) := by
  simp only [identifierAt?, Option.bind_eq_bind, Option.bind_eq_some_iff, Prod.exists,
    Option.pure_def, Option.some.injEq]
  grind

end

section

variable {fs : List FunctionDecl} {c : Setting} {scope : Nat} {st : State} {ss : List Stmt}

/-- A block that is checked without a report, in a scope that sees some variables. -/
structure Runs (fs : List FunctionDecl) (c : Setting) (ss : List Stmt) (scope : Nat) (st : State) :
    Prop where
  stands : ∃ b Γ, Stands st.table scope fs (b :: Γ)
  clean : Clean (checkStmts c scope st [] false ss).2.2.log

/-- Before each statement of the block nothing has been reported, and one identifier has been made
for each declaration. -/
theorem Runs.before (h : Runs fs c ss scope st) (k : Nat) :
    (∃ b Γ, Stands (stateBefore c scope st ss k).table scope fs (b :: Γ)) ∧
      Clean (stateBefore c scope st ss k).log ∧
      Table.Kept 0 st.table (stateBefore c scope st ss k).table ∧
      (stateBefore c scope st ss k).table.identifiers.size =
        st.table.identifiers.size + stmtsDeclarations (ss.take k) := by
  obtain ⟨b, Γ, hs⟩ := h.stands
  have htake := checkStmts_sound (c := c) st hs (ss.take k)
  obtain ⟨b', Γ', heq, _⟩ := afterAll_cons b Γ (checkStmts c scope st [] false (ss.take k)).1
  have hmid := heq ▸ htake.stands
  have hclean : Clean (stateBefore c scope st ss k).log := by
    have hrest := checkStmts_sound (c := c) (stateBefore c scope st ss k) hmid (ss.drop k)
    refine hrest.clean ?_
    rw [← checkStmts_drop]
    exact h.clean
  exact ⟨⟨b', Γ', hmid⟩, hclean, htake.kept.mono (Nat.zero_le _), checkStmts_size st hs _ hclean⟩

theorem Runs.stmt (h : Runs fs c ss scope st) {k : Nat} {s : Stmt} (hk : ss[k]? = some s) :
    Clean (checkStmt c scope (stateBefore c scope st ss k) s).2.2.log := by
  rw [← stateBefore_succ c scope st hk]
  exact (h.before (k + 1)).2.1

/-- A statement of the block brings its own variable into sight. -/
theorem Runs.inSight_succ (h : Runs fs c ss scope st) {k : Nat} {s : Stmt}
    (hk : ss[k]? = some s) :
    (stateBefore c scope st ss (k + 1)).table.inSight scope =
      (s.declared?.map fun v =>
        (v.1, (stateBefore c scope st ss k).table.identifiers.size)).toList ++
          (stateBefore c scope st ss k).table.inSight scope := by
  obtain ⟨⟨b, Γ, hs⟩, _⟩ := h.before k
  rw [stateBefore_succ c scope st hk]
  exact hs.inSight_checkStmt (h.stmt hk)

theorem Runs.kept_succ (h : Runs fs c ss scope st) {k : Nat} {s : Stmt} (hk : ss[k]? = some s) :
    Table.Kept 0 (stateBefore c scope st ss k).table (stateBefore c scope st ss (k + 1)).table := by
  obtain ⟨⟨b, Γ, hs⟩, _⟩ := h.before k
  rw [stateBefore_succ c scope st hk]
  exact (checkStmt_sound (c := c) _ hs s).kept.mono (Nat.zero_le _)

theorem Runs.enter (h : Runs fs c ss scope st) {k j : Nat} {s : Stmt} {inner : List Stmt}
    (hk : ss[k]? = some s) (hj : s.bodies[j]? = some inner) :
    Entered fs c scope (stateBefore c scope st ss k) (s.before true j) inner
      (Typing.enter c scope (stateBefore c scope st ss k) s j) := by
  obtain ⟨⟨b, Γ, hs⟩, _⟩ := h.before k
  exact hs.enter (isBody_of_bodies hj) (h.stmt hk)

theorem Runs.declareIdentifier? (h : Runs fs c ss scope st) {k : Nat} {s : Stmt} {x : String}
    {ty : Ty} (hk : ss[k]? = some s) (hs : s.declared? = some (x, ty)) :
    ∃ t', (stateBefore c scope st ss k).table.declareIdentifier? scope x ty =
        some (t', (stateBefore c scope st ss k).table.identifiers.size) ∧
      Table.OnlyMarks t' (stateBefore c scope st ss (k + 1)).table := by
  cases s with
  | decl span y ty' init =>
    obtain ⟨rfl, rfl⟩ := Prod.mk.inj (Option.some.inj hs)
    obtain ⟨t', id, hd, hmarks⟩ := checkStmt_decl (h.stmt hk)
    obtain ⟨_, rfl, _⟩ := Table.declareIdentifier?_eq_some hd
    rw [stateBefore_succ c scope st hk]
    exact ⟨t', hd, hmarks⟩
  | _ => cases hs

end

section

variable {fs : List FunctionDecl} {c : Setting} {start : Nat × State} {body : List Stmt}

/-- What holds where checking comes to a block, if it reports nothing: before the block it has made
an identifier for each declaration, and the block is annotated from there. -/
structure Checked (fs : List FunctionDecl) (c : Setting) (start : Nat × State) (body : List Stmt)
    (way : Way) (ss : List Stmt) (scope : Nat) (st : State) : Prop where
  runs : Runs fs c ss scope st
  opens : ∃ n, Opens true body way ss n ∧
    st.table.identifiers.size = start.2.table.identifiers.size + n
  annotated : blockAt? (checkStmts c start.1 start.2 [] false body).1 way =
    some (checkStmts c scope st [] false ss).1

theorem checkedBlock_checked (h : Runs fs c body start.1 start.2) {way : Way} :
    ∀ {ss : List Stmt} {scope : Nat} {st : State},
      checkedBlock c start body way = some (ss, scope, st) →
        Checked fs c start body way ss scope st := by
  induction way with
  | nil =>
    rintro ss scope st hss
    obtain ⟨rfl, rfl⟩ := Prod.mk.inj (Option.some.inj hss)
    exact ⟨h, ⟨0, .outermost, rfl⟩, rfl⟩
  | cons step way ih =>
    obtain ⟨k, j⟩ := step
    rintro inner scope' st' hss
    obtain ⟨ss, scope, st, s, houter, hk, hj, hspot⟩ := checkedBlock_cons.mp hss
    obtain ⟨hruns, ⟨n, hopens, hsize⟩, hann⟩ := ih houter
    have hent := hruns.enter hk hj
    rw [hspot] at hent
    refine ⟨⟨hent.stands, hent.clean⟩, ⟨_, .inner hopens hk hj, ?_⟩, ?_⟩
    · rw [hent.size, (hruns.before k).2.2.2, hsize]
      omega
    · rw [blockAt?, hann, Option.bind_some, checkStmts_getElem? c scope st hk, Option.bind_some,
        bodies_checkStmt (isBody_of_bodies hj), hspot]

theorem exists_checkedBlock (c : Setting) (start : Nat × State) {way : Way} :
    ∀ {ss : List Stmt}, blockAt? body way = some ss →
      ∃ scope st, checkedBlock c start body way = some (ss, scope, st) := by
  induction way with
  | nil =>
    intro ss hss
    obtain rfl := Option.some.inj hss
    exact ⟨start.1, start.2, rfl⟩
  | cons step way ih =>
    obtain ⟨k, j⟩ := step
    intro inner hinner
    obtain ⟨s, hs, hj⟩ := Option.bind_eq_some_iff.mp hinner
    obtain ⟨ss, hss, hk⟩ := Option.bind_eq_some_iff.mp hs
    obtain ⟨scope, st, hblock⟩ := ih hss
    exact ⟨_, _, checkedBlock_cons.mpr ⟨ss, scope, st, s, hblock, hk, hj, rfl⟩⟩

/-- The identifier of a declaration is the next one where checking comes to it. -/
theorem identifierAt?_eq (h : Runs fs c body start.1 start.2) {way : Way} {ss : List Stmt}
    {scope : Nat} {st : State} (hblock : checkedBlock c start body way = some (ss, scope, st))
    {k : Nat} {s : Stmt} {v : String × Ty} (hk : ss[k]? = some s) (hs : s.declared? = some v) :
    identifierAt? c start body way k =
      some (stateBefore c scope st ss k).table.identifiers.size := by
  obtain ⟨t', hd, _⟩ := (checkedBlock_checked h hblock).runs.declareIdentifier? hk hs
  exact identifierAt?_eq_some.mpr ⟨ss, scope, st, s, _, _, t', hblock, hk, hs, hd⟩

/-- The identifier of a declaration tells how many declarations come before it. -/
theorem getElem?_places_of_identifierAt? (h : Runs fs c body start.1 start.2) {way : Way}
    {k id : Nat} (hid : identifierAt? c start body way k = some id) :
    ∃ n, id = start.2.table.identifiers.size + n ∧
      (stmtsPlaces true [] 0 body)[n]? = some (way, k) := by
  obtain ⟨ss, scope, st, s, _, _, _, hblock, hk, hs, _⟩ := identifierAt?_eq_some.mp hid
  obtain ⟨hruns, ⟨n, hopens, hsize⟩, _⟩ := checkedBlock_checked h hblock
  rw [identifierAt?_eq h hblock hk hs, (hruns.before k).2.2.2, hsize] at hid
  refine ⟨n + stmtsDeclarations (ss.take k), ?_, hopens.getElem?_places hk hs⟩
  have := Option.some.inj hid
  omega

end

/-! ### Functions -/

/-- The state in which checking comes to the body of a function, after those before it. -/
def functionState (p : Program) (n : Nat) : State :=
  let declared := declareFunctions p.source ⟨.initial, .empty⟩ [] p.functions
  (checkBodies p.source declared.2 [] (declared.1.take n)).2

/-- The scope of the body of a function, and the state with its first `k` parameters. -/
def paramState (p : Program) (n : Nat) (f : FunctionDecl) (k : Nat) : Nat × State :=
  let inner := (functionState p n).inner Table.root
  (inner.1, declareParams (settingOf p.source f) inner.1 inner.2 (f.params.take k))

/-- The scope and the state in which checking comes to the statements of a function. -/
def bodyState (p : Program) (n : Nat) (f : FunctionDecl) : Nat × State :=
  paramState p n f f.params.length

/-- The identifier that checking makes for a declaration of the `n`-th function. -/
def identifierOf? (p : Program) (n : Nat) (f : FunctionDecl) : Declaration → Option Nat
  | .param k => do
    let x ← f.params[k]?
    let (scope, st) := paramState p n f k
    let (_, id) ← st.table.declareIdentifier? scope x.name x.ty
    return id
  | .stmt way k => identifierAt? (settingOf p.source f) (bodyState p n f) f.body way k

theorem checkBodies_done (file : Option String) (fs : List (FunctionDecl × Bool)) :
    ∀ (st : State) (done : List FunctionDecl), checkBodies file st done fs =
      (done.reverse ++ (checkBodies file st [] fs).1, (checkBodies file st [] fs).2) := by
  induction fs with
  | nil => simp [checkBodies]
  | cons f fs ih =>
    obtain ⟨f, declared⟩ := f
    intro st done
    unfold checkBodies
    split
    · dsimp only
      rw [ih _ (_ :: done), ih _ [_]]
      simp
    · rw [ih _ (_ :: done), ih _ [_]]
      simp

theorem checkBodies_cons (file : Option String) (st : State) (f : FunctionDecl) (declared : Bool)
    (fs : List (FunctionDecl × Bool)) : checkBodies file st [] ((f, declared) :: fs) =
      let head := if declared && !f.isExternal then checkBody file st f else (f, st)
      (head.1 :: (checkBodies file head.2 [] fs).1, (checkBodies file head.2 [] fs).2) := by
  rw [checkBodies]
  split
  · dsimp only
    rw [checkBodies_done]
    rfl
  · dsimp only
    rw [checkBodies_done]
    rfl

/-- The body of a function is annotated where checking comes to it, and without a report if there
is none in the end. -/
theorem checkBodies_at {file : Option String} {gs : List FunctionDecl} {f : FunctionDecl}
    (hext : f.isExternal = false) :
    ∀ {fs : List (FunctionDecl × Bool)} {n : Nat} (st : State),
      Stands st.table Table.root gs [] → fs[n]? = some (f, true) →
      Clean (checkBodies file st [] fs).2.log →
        (checkBodies file st [] fs).1[n]? =
          some (checkBody file (checkBodies file st [] (fs.take n)).2 f).1 ∧
        Clean (checkBody file (checkBodies file st [] (fs.take n)).2 f).2.log := by
  intro fs
  induction fs with
  | nil => exact fun _ _ hn => nomatch hn
  | cons g fs ih =>
    obtain ⟨g, declared⟩ := g
    intro n st hst hn hc
    have hhead : Stands (if declared && !g.isExternal then checkBody file st g
        else (g, st)).2.table Table.root gs [] := by
      split
      · exact (checkBody_sound st hst).1
      · exact hst
    rw [checkBodies_cons] at hc ⊢
    cases n with
    | zero =>
      obtain ⟨rfl, rfl⟩ := Prod.mk.inj (Option.some.inj hn)
      have hrun : (true && !g.isExternal) = true := by rw [hext]; rfl
      rw [if_pos hrun] at hc hhead ⊢
      exact ⟨rfl, (checkBodies_sound _ hhead hc).1⟩
    | succ n =>
      rw [List.take_succ_cons, checkBodies_cons]
      exact ih _ hhead hn hc

/-! ### Parameters -/

section

variable {fs : List FunctionDecl} {c : Setting} {scope : Nat} {st : State} {b : Block}
  {params : List Param}

theorem declareParams_append (c : Setting) (scope : Nat) (st : State) (xs ys : List Param) :
    declareParams c scope st (xs ++ ys) = declareParams c scope (declareParams c scope st xs) ys :=
  List.foldl_append

theorem declareParams_before (h : Stands st.table scope fs [b])
    (hc : Clean (declareParams c scope st params).log) (k : Nat) :
    (∃ b', Stands (declareParams c scope st (params.take k)).table scope fs [b']) ∧
      Clean (declareParams c scope st (params.take k)).log := by
  obtain ⟨_, b', hs, _⟩ := declareParams_sound (c := c) (params.take k) st h
  obtain ⟨_, _, _, hclean⟩ := declareParams_sound (c := c) (params.drop k) _ hs
  rw [← declareParams_append, List.take_append_drop] at hclean
  exact ⟨⟨b', hs⟩, (hclean hc).1⟩

theorem declareParams_succ (h : Stands st.table scope fs [b])
    (hc : Clean (declareParams c scope st params).log) {k : Nat} {x : Param}
    (hk : params[k]? = some x) :
    ∃ t', (declareParams c scope st (params.take k)).table.declareIdentifier? scope x.name x.ty =
        some (t', (declareParams c scope st (params.take k)).table.identifiers.size) ∧
      Table.OnlyMarks t' (declareParams c scope st (params.take (k + 1))).table := by
  have hclean := (declareParams_before h hc (k + 1)).2
  rw [List.take_add_one, hk, Option.toList_some, declareParams_append] at hclean ⊢
  generalize declareParams c scope st (params.take k) = before at hclean ⊢
  unfold declareParams at hclean ⊢
  rw [List.foldl_cons, List.foldl_nil] at hclean ⊢
  cases hd : before.table.declareIdentifier? scope x.name x.ty with
  | none =>
    rw [hd] at hclean
    exact absurd hclean (State.not_clean_add _ _ _ _)
  | some r =>
    obtain ⟨t', id⟩ := r
    obtain ⟨_, rfl, _⟩ := Table.declareIdentifier?_eq_some hd
    refine ⟨t', rfl, ?_⟩
    dsimp only
    rw [markEverywhere_eq hd]
    exact Table.onlyMarks_markAssigned t' _ scope

theorem declareParams_size (h : Stands st.table scope fs [b])
    (hc : Clean (declareParams c scope st params).log) :
    ∀ {k : Nat}, k ≤ params.length →
      (declareParams c scope st (params.take k)).table.identifiers.size =
        st.table.identifiers.size + k := by
  intro k
  induction k with
  | zero => exact fun _ => rfl
  | succ k ih =>
    intro hk
    obtain ⟨t', hd, hmarks⟩ := declareParams_succ h hc (List.getElem?_eq_getElem hk)
    rw [hmarks.size, size_declareIdentifier hd, ih (Nat.le_of_succ_le hk), Nat.add_assoc]

end

/-! ### The bodies of a program -/

section

variable {p : Program} {n : Nat} {f f' : FunctionDecl}

/-- What holds where checking comes to a function, if it reports nothing: the parameters and the
statements are checked without a report, and the body is annotated from there. -/
structure Checks (p : Program) (n : Nat) (f f' : FunctionDecl) (fs : List FunctionDecl) : Prop where
  root : Stands (functionState p n).table Table.root fs []
  params : Clean (bodyState p n f).2.log
  runs : Runs fs (settingOf p.source f) f.body (bodyState p n f).1 (bodyState p n f).2
  annotated : f' = { f with
    body := (checkStmts (settingOf p.source f) (bodyState p n f).1 (bodyState p n f).2 [] false
      f.body).1 }

theorem bodyState_eq (p : Program) (n : Nat) (f : FunctionDecl) :
    bodyState p n f = (((functionState p n).inner Table.root).1,
      declareParams (settingOf p.source f) ((functionState p n).inner Table.root).1
        ((functionState p n).inner Table.root).2 f.params) := by
  rw [bodyState, paramState, List.take_length]

/-- A program that is checked without a report has its functions with bodies checked so. -/
theorem checkFresh_checks (hc : Clean (checkFresh p).2.log) (hf : p.functions[n]? = some f)
    (hext : f.isExternal = false) :
    ∃ f', (checkFresh p).1.functions[n]? = some f' ∧ Checks p n f f' p.functions := by
  have hst := checkFresh_staged hc
  have hn : (declareFunctions p.source ⟨.initial, .empty⟩ [] p.functions).1[n]? =
      some (f, true) := by
    rw [hst.functions, List.getElem?_map, hf]
    rfl
  obtain ⟨hget, hclean⟩ := checkBodies_at hext _ hst.declared.stands hn hst.clean
  have hroot : Stands (functionState p n).table Table.root p.functions [] :=
    checkBodies_stands _ _ _ hst.declared.stands
  have hinner : Stands ((functionState p n).inner Table.root).2.table
      ((functionState p n).inner Table.root).1 p.functions [[]] := hroot.child
  obtain ⟨_, b, hs, _⟩ := declareParams_sound (c := settingOf p.source f) f.params _ hinner
  have hclean' : Clean (checkBody p.source (functionState p n) f).2.log := hclean
  unfold checkBody at hclean'
  have hstate := bodyState_eq p n f
  have hruns : Runs p.functions (settingOf p.source f) f.body (bodyState p n f).1
      (bodyState p n f).2 := by
    rw [hstate]
    refine ⟨⟨b, [], hs⟩, ?_⟩
    dsimp only at hclean'
    split at hclean'
    · exact absurd hclean' (State.not_clean_add _ _ _ _)
    · exact hclean'
  refine ⟨_, hget, hroot, (hruns.before 0).2.1, hruns, ?_⟩
  show (checkBody p.source (functionState p n) f).1 = _
  rw [hstate]
  rfl

namespace Checks

variable {fs : List FunctionDecl} (h : Checks p n f f' fs)
include h

/-- The parameters are declared in a scope of their own, without a report. -/
theorem inner :
    Stands ((functionState p n).inner Table.root).2.table
      ((functionState p n).inner Table.root).1 fs [[]] ∧
    Clean (declareParams (settingOf p.source f) ((functionState p n).inner Table.root).1
      ((functionState p n).inner Table.root).2 f.params).log := by
  have hc := h.params
  rw [bodyState_eq] at hc
  exact ⟨h.root.child, hc⟩

theorem size_paramState {k : Nat} (hk : k ≤ f.params.length) :
    (paramState p n f k).2.table.identifiers.size =
      (functionState p n).table.identifiers.size + k :=
  declareParams_size h.inner.1 h.inner.2 hk

theorem stands_paramState (k : Nat) :
    ∃ b, Stands (paramState p n f k).2.table (paramState p n f k).1 fs [b] :=
  (declareParams_before h.inner.1 h.inner.2 k).1

theorem inSight_paramState_zero :
    (paramState p n f 0).2.table.inSight (paramState p n f 0).1 = [] := by
  have hlt := h.root.tracks.lt_size
  have hchild : (paramState p n f 0).2.table.inSight (paramState p n f 0).1 = _ :=
    h.root.formed.inSight_child hlt
  rw [hchild]
  cases h.root.tracks with
  | @root e he hp hids =>
    have hpar : (functionState p n).table.parent? Table.root = none := by
      rw [Table.parent?, he]
      exact hp
    rw [Table.inSight, Table.ancestors_of_none hpar, List.flatMap_cons, List.flatMap_nil,
      Table.identifiersOf, he, Option.map_some, hids]
    rfl

/-- A parameter makes the next identifier, which comes into sight before the others. -/
theorem param {k : Nat} {x : Param} (hk : f.params[k]? = some x) :
    identifierOf? p n f (.param k) = some (paramState p n f k).2.table.identifiers.size ∧
      (paramState p n f (k + 1)).2.table.inSight (paramState p n f k).1 =
        (x.name, (paramState p n f k).2.table.identifiers.size) ::
          (paramState p n f k).2.table.inSight (paramState p n f k).1 ∧
      Table.Kept 0 (paramState p n f k).2.table (paramState p n f (k + 1)).2.table ∧
      ∃ i, (paramState p n f (k + 1)).2.table.identifiers[
          (paramState p n f k).2.table.identifiers.size]? = some i ∧
        i.id = (paramState p n f k).2.table.identifiers.size ∧ i.ty = x.ty := by
  obtain ⟨b, hs⟩ := h.stands_paramState k
  obtain ⟨t', hd, hmarks⟩ := declareParams_succ h.inner.1 h.inner.2 hk
  have hd' : (paramState p n f k).2.table.declareIdentifier? (paramState p n f k).1 x.name x.ty =
      some (t', (paramState p n f k).2.table.identifiers.size) := hd
  refine ⟨?_, ?_, ?_, getElem?_declareIdentifier hd' hmarks.kept⟩
  · simp only [identifierOf?, hk, hd', Option.bind_eq_bind, Option.bind_some]
    rfl
  · rw [← hs.formed.inSight_declareIdentifier hs.tracks.lt_size hd']
    exact hmarks.inSight _
  · exact ((Table.kept_declareIdentifier hd').mono (Nat.zero_le _)).trans hmarks.kept

end Checks

/-- Distinct declarations of a function make distinct identifiers. -/
theorem Checks.identifierOf?_injective {fs : List FunctionDecl} (h : Checks p n f f' fs)
    {D D' : Declaration} {id : Nat} (hD : identifierOf? p n f D = some id)
    (hD' : identifierOf? p n f D' = some id) : D = D' := by
  have hparam : ∀ {k : Nat}, identifierOf? p n f (.param k) = some id →
      k < f.params.length ∧ id = (functionState p n).table.identifiers.size + k := by
    intro k hk
    obtain ⟨x, hx, _⟩ := Option.bind_eq_some_iff.mp hk
    have hlt : k < f.params.length := (List.getElem?_eq_some_iff.mp hx).1
    rw [(h.param hx).1, h.size_paramState (Nat.le_of_lt hlt)] at hk
    exact ⟨hlt, (Option.some.inj hk).symm⟩
  have hstmt : ∀ {way : Way} {k : Nat}, identifierOf? p n f (.stmt way k) = some id →
      ∃ m, id = (functionState p n).table.identifiers.size + f.params.length + m ∧
        (stmtsPlaces true [] 0 f.body)[m]? = some (way, k) := by
    intro way k hk
    obtain ⟨m, hm, hplace⟩ := getElem?_places_of_identifierAt? h.runs hk
    have hsize : (bodyState p n f).2.table.identifiers.size = _ :=
      h.size_paramState (Nat.le_refl _)
    exact ⟨m, hsize ▸ hm, hplace⟩
  cases D with
  | param k =>
    obtain ⟨hlt, hid⟩ := hparam hD
    cases D' with
    | param k' =>
      obtain ⟨_, hid'⟩ := hparam hD'
      obtain rfl : k = k' := by omega
      rfl
    | stmt way k' =>
      obtain ⟨m, hid', _⟩ := hstmt hD'
      omega
  | stmt way k =>
    obtain ⟨m, hid, hplace⟩ := hstmt hD
    cases D' with
    | param k' =>
      obtain ⟨hlt, hid'⟩ := hparam hD'
      omega
    | stmt way' k' =>
      obtain ⟨m', hid', hplace'⟩ := hstmt hD'
      obtain rfl : m = m' := by omega
      obtain ⟨rfl, rfl⟩ := Prod.mk.inj (Option.some.inj (hplace.symm.trans hplace'))
      rfl

end

end Quill.Typing
