import Quill.Proofs.Scope.Coherent
import Quill.Proofs.Tree.Places
import Quill.Proofs.Typing.Stages

/-! # What checking sees at a place

The variables that a scope sees, with the nearest first, are those of the scopes on its way to the
root (`Table.inSight`): a statement adds the variable that it declares itself and no other, and a
body sees what the statement around it sees.  Checking comes to a body of a statement in a scope of
its own (`enter`), and looks up the names of the statement in the scope around it (`lookupState`).

When nothing is reported, every declaration adds one identifier and every name means one, and the
expressions of a statement are annotated where its names are looked up (`exprs_checkStmt`). -/

namespace Quill.Scope.Table

/-! ### Variables in sight -/

/-- The variables that a scope sees, with their numbers, the nearest first. -/
def inSight (t : Table) (s : Nat) : List (String × Nat) := (t.ancestors s).flatMap t.identifiersOf

theorem resolveIdentifier?_eq_bind (t : Table) (s : Nat) (x : String) :
    t.resolveIdentifier? s x = ((t.inSight s).lookup x).bind (t.identifiers[·]?) := by
  have hlookup : (t.inSight s).lookup x = (t.ancestors s).findSome? (t.declared? · x) := by
    unfold inSight
    induction t.ancestors s with
    | nil => rfl
    | cons r rest ih =>
      rw [List.flatMap_cons, List.lookup_append, ih, List.findSome?_cons, declared?_eq_lookup]
      cases (t.identifiersOf r).lookup x <;> rfl
  rw [hlookup]
  rfl

theorem inSight_congr {t t' : Table} {s : Nat} (hanc : t'.ancestors s = t.ancestors s)
    (hof : ∀ r ∈ t.ancestors s, t'.identifiersOf r = t.identifiersOf r) :
    t'.inSight s = t.inSight s := by
  unfold inSight
  rw [hanc]
  exact List.flatMap_congr hof

/-- Scopes below a number under which nothing changes see the same. -/
theorem Kept.inSight {t t' : Table} {n s : Nat} (hk : Kept n t t') (hf : t.Formed)
    (hn : n ≤ t.scopes.size) (hs : s < n) : t'.inSight s = t.inSight s := by
  refine inSight_congr (hf.ancestors_congr (fun r hr => hk.parent? r (by omega)) hs) ?_
  intro r hr
  have hrs := hf.le_of_mem_ancestors hr
  have hlt : r < t.scopes.size := by omega
  obtain ⟨e, he, _, hids, _⟩ := hk.scope r (by omega) _ (Array.getElem?_eq_getElem hlt)
  unfold identifiersOf
  rw [he, Array.getElem?_eq_getElem hlt, Option.map_some, hids]
  rfl

theorem Formed.inSight_child {t : Table} (hf : t.Formed) {s : Nat} (hs : s < t.scopes.size) :
    (t.child s).1.inSight t.scopes.size = t.inSight s := by
  have hanc := (hf.child hs).ancestors_of_parent (parent?_child_new t s)
  have hnew : (t.child s).1.identifiersOf t.scopes.size = [] := by
    rw [identifiersOf_child, identifiersOf, Array.getElem?_eq_none (Nat.le_refl _)]
    rfl
  have houter := (kept_child t s).inSight hf (Nat.le_refl _) hs
  rw [inSight, hanc, List.flatMap_cons, hnew, List.nil_append]
  exact houter

theorem Formed.inSight_declareIdentifier {t t' : Table} {s id : Nat} {x : String} {ty : Ty}
    (hf : t.Formed) (hs : s < t.scopes.size)
    (hd : t.declareIdentifier? s x ty = some (t', id)) :
    t'.inSight s = (x, id) :: t.inSight s := by
  have hof := identifiersOf_declareIdentifier hs hd
  have hanc : t'.ancestors s = t.ancestors s :=
    hf.ancestors_congr (fun r _ => parent?_declareIdentifier hd r) (Nat.lt_succ_self s)
  obtain ⟨rest, hrest, hlt⟩ : ∃ rest, t.ancestors s = s :: rest ∧ ∀ r ∈ rest, r < s := by
    cases hp : t.parent? s with
    | none => exact ⟨[], ancestors_of_none hp, fun r hr => absurd hr List.not_mem_nil⟩
    | some p =>
      refine ⟨t.ancestors p, hf.ancestors_of_parent hp, fun r hr => ?_⟩
      have hle := hf.le_of_mem_ancestors hr
      have hps := hf.parent_lt s p hp
      omega
  have hsame : rest.flatMap t'.identifiersOf = rest.flatMap t.identifiersOf := by
    refine List.flatMap_congr fun r hr => ?_
    have hrs := hlt r hr
    rw [hof, if_neg (by omega)]
  rw [inSight, inSight, hanc, hrest, List.flatMap_cons, List.flatMap_cons, hsame, hof, if_pos rfl,
    List.cons_append]

/-- The tables declare the same; only records of assignment can differ. -/
structure OnlyMarks (t t' : Table) : Prop where
  scopes : t'.scopes = t.scopes
  size : t'.identifiers.size = t.identifiers.size
  kept : Kept 0 t t'

theorem OnlyMarks.refl (t : Table) : OnlyMarks t t := ⟨rfl, rfl, Kept.refl 0 t⟩

theorem onlyMarks_markAssigned (t : Table) (id block : Nat) :
    OnlyMarks t (t.markAssigned id block) := by
  refine ⟨scopes_markAssigned t id block, ?_, (kept_markAssigned t id block).mono (Nat.zero_le _)⟩
  unfold markAssigned
  split
  · exact Array.size_modify
  · exact Array.size_modify

theorem onlyMarks_markAllAssigned (t : Table) (ids : List Nat) (block : Nat) :
    OnlyMarks t (t.markAllAssigned ids block) := by
  refine ⟨scopes_markAllAssigned t ids block, ?_,
    (kept_markAllAssigned t ids block).mono (Nat.zero_le _)⟩
  unfold markAllAssigned
  induction ids generalizing t with
  | nil => rfl
  | cons id ids ih => rw [List.foldl_cons, ih, (onlyMarks_markAssigned t id block).size]

theorem OnlyMarks.inSight {t t' : Table} (h : OnlyMarks t t') (s : Nat) :
    t'.inSight s = t.inSight s := by
  refine inSight_congr (Typing.ancestors_eq_of_scopes h.scopes s) fun r _ => ?_
  rw [identifiersOf, identifiersOf, h.scopes]

end Quill.Scope.Table

namespace Quill.Typing

open Scope (Table)
open Report (Log)

/-! ### Where checking stands -/

/-- The new scope inside a scope, and the state with it. -/
def State.inner (st : State) (scope : Nat) : Nat × State :=
  ((st.table.child scope).2, { st with table := (st.table.child scope).1 })

/-- The scope and the state in which checking comes to a body of a statement. -/
def enter (c : Setting) (scope : Nat) (st : State) : Stmt → Nat → Nat × State
  | .ifThen _ cond _, _ | .while _ cond _, _ | .ifElse _ cond _ _, 0 =>
    (st.condition c scope cond).2.inner scope
  | .ifElse _ cond body _, _ + 1 =>
    let one := (st.condition c scope cond).2.inner scope
    (checkStmts c one.1 one.2 [] false body).2.2.inner scope
  | _, _ => st.inner scope

/-- The state in which checking looks up the names of a statement: the condition of a `doWhile`
comes after its body. -/
def lookupState (c : Setting) (scope : Nat) (st : State) : Stmt → State
  | .doWhile _ body _ =>
    let inner := st.inner scope
    let after := (checkStmts c inner.1 inner.2 [] false body).2.2
    { after with table := after.table.promote inner.1 scope }
  | _ => st

/-- The state after the first `k` statements of a block. -/
def stateBefore (c : Setting) (scope : Nat) (st : State) (ss : List Stmt) (k : Nat) : State :=
  (checkStmts c scope st [] false (ss.take k)).2.2

/-! ### Statement by statement -/

theorem stateBefore_succ (c : Setting) (scope : Nat) (st : State) {ss : List Stmt} {k : Nat}
    {s : Stmt} (hk : ss[k]? = some s) :
    stateBefore c scope st ss (k + 1) =
      (checkStmt c scope (stateBefore c scope st ss k) s).2.2 := by
  unfold stateBefore
  induction ss generalizing k st with
  | nil => cases hk
  | cons s' rest ih =>
    cases k with
    | zero =>
      obtain rfl := Option.some.inj hk
      rw [List.take_succ_cons, List.take_zero, checkStmts_cons]
      rfl
    | succ k =>
      rw [List.take_succ_cons, List.take_succ_cons, checkStmts_cons, checkStmts_cons]
      exact ih (checkStmt c scope st s').2.2 hk

/-- The statements after the first `k` are checked from the state after these. -/
theorem checkStmts_drop (c : Setting) (scope : Nat) (st : State) (ss : List Stmt) (k : Nat) :
    (checkStmts c scope st [] false ss).2.2 =
      (checkStmts c scope (stateBefore c scope st ss k) [] false (ss.drop k)).2.2 := by
  unfold stateBefore
  induction ss generalizing k st with
  | nil => simp [checkStmts]
  | cons s rest ih =>
    cases k with
    | zero => rfl
    | succ k =>
      rw [List.take_succ_cons, List.drop_succ_cons, checkStmts_cons, checkStmts_cons]
      exact ih (checkStmt c scope st s).2.2 k

theorem checkStmts_getElem? (c : Setting) (scope : Nat) (st : State) {ss : List Stmt} {k : Nat}
    {s : Stmt} (hk : ss[k]? = some s) :
    (checkStmts c scope st [] false ss).1[k]? =
      some (checkStmt c scope (stateBefore c scope st ss k) s).1 := by
  unfold stateBefore
  induction ss generalizing k st with
  | nil => cases hk
  | cons s' rest ih =>
    rw [checkStmts_cons]
    cases k with
    | zero =>
      obtain rfl := Option.some.inj hk
      rfl
    | succ k =>
      rw [List.take_succ_cons, checkStmts_cons]
      exact ih (checkStmt c scope st s').2.2 hk

/-- The bodies of an annotated statement come from where checking has come to them. -/
theorem bodies_checkStmt {body : List Stmt} {s : Stmt} {j : Nat} (h : IsBody body s j)
    (c : Setting) (scope : Nat) (st : State) :
    (checkStmt c scope st s).1.bodies[j]? =
      some (checkStmts c (enter c scope st s j).1 (enter c scope st s j).2 [] false body).1 := by
  cases h with
  | ifThen | first | second | «while» | doWhile | block => rfl

theorem declared?_checkStmt (c : Setting) (scope : Nat) (st : State) (s : Stmt) :
    (checkStmt c scope st s).1.declared? = s.declared? := by
  cases s with
  | expr | decl | assign | assignElement | ifThen | ifElse | «while» | doWhile | ret | block => rfl

section

variable {fs : List FunctionDecl} {c : Setting} {b : Block} {Γ : Ctx} {scope : Nat} {st : State}

/-! ### Scopes of bodies -/

theorem Stands.inner (h : Stands st.table scope fs (b :: Γ)) :
    Stands (st.inner scope).2.table (st.inner scope).1 fs ([] :: b :: Γ) ∧
      (st.inner scope).2.table.inSight (st.inner scope).1 = st.table.inSight scope ∧
      Table.Kept st.table.scopes.size st.table (st.inner scope).2.table := by
  have hlt := h.tracks.lt_size
  exact ⟨h.child, h.formed.inSight_child hlt, Table.kept_child st.table scope⟩

/-- After a body the scope around it stands and sees as before. -/
theorem Stands.after_inner (h : Stands st.table scope fs (b :: Γ)) (c : Setting)
    (body : List Stmt) {r : List Stmt × Bool × State}
    (hr : checkStmts c (st.inner scope).1 (st.inner scope).2 [] false body = r) :
    Stands r.2.2.table scope fs (b :: Γ) ∧ r.2.2.table.inSight scope = st.table.inSight scope ∧
      Table.Kept st.table.scopes.size st.table r.2.2.table := by
  have hlt := h.tracks.lt_size
  have hbody := checkStmts_sound (c := c) (st.inner scope).2 h.inner.1 body
  rw [hr] at hbody
  obtain ⟨hk, hs, _⟩ := h.of_child hbody.stands.formed hbody.kept
  exact ⟨hs, hk.inSight h.formed (Nat.le_refl _) hlt, hk⟩

/-- What a body promotes to the scope around it leaves the scope standing. -/
theorem Stands.promote_inner (h : Stands st.table scope fs (b :: Γ)) (c : Setting)
    (body : List Stmt) {r : List Stmt × Bool × State}
    (hr : checkStmts c (st.inner scope).1 (st.inner scope).2 [] false body = r) :
    ∃ b' Γ', Stands (r.2.2.table.promote (st.inner scope).1 scope) scope fs (b' :: Γ') := by
  have hbody := checkStmts_sound (c := c) (st.inner scope).2 h.inner.1 body
  rw [hr] at hbody
  obtain ⟨_, _, hp⟩ := h.of_child hbody.stands.formed hbody.kept
  obtain ⟨b₁, Γ₁, heq, hle⟩ := afterAll_cons [] (b :: Γ) r.1
  obtain ⟨b₂, Γ₂, _, _, rfl⟩ := List.forall₂_cons_left_iff.mp hle
  have hinner := hbody.stands
  rw [heq] at hinner
  exact ⟨b₂, Γ₂, (hinner.promote hp).1⟩

theorem Stands.past_condition (h : Stands st.table scope fs (b :: Γ)) (c : Setting) (cond : Expr) :
    Stands (st.condition c scope cond).2.table scope fs (b :: Γ) :=
  State.table_condition st c scope cond ▸ h

/-- After a body of a statement the scope around it sees as before the statement. -/
theorem Stands.inSight_enter (h : Stands st.table scope fs (b :: Γ)) (c : Setting)
    {body : List Stmt} {s : Stmt} {j : Nat} (hb : IsBody body s j) :
    (checkStmts c (enter c scope st s j).1 (enter c scope st s j).2 []
      false body).2.2.table.inSight scope = st.table.inSight scope := by
  cases hb with
  | @ifThen _ cond | @«while» _ cond | @first _ cond _ =>
    obtain ⟨_, hsame, _⟩ := (h.past_condition c cond).after_inner c body rfl
    exact hsame.trans (congrArg (·.inSight scope) (State.table_condition st c scope cond))
  | @second _ cond first =>
    obtain ⟨h₂, hsame, _⟩ := (h.past_condition c cond).after_inner c first rfl
    obtain ⟨_, hsame', _⟩ := h₂.after_inner c body rfl
    exact (hsame'.trans hsame).trans
      (congrArg (·.inSight scope) (State.table_condition st c scope cond))
  | doWhile | block => exact (h.after_inner c body rfl).2.1

/-! ### What a statement declares -/

theorem checkStmt_decl {span : Span} {x : String} {ty : Ty} {init : Option Expr}
    (hc : Clean (checkStmt c scope st (.decl span x ty init)).2.2.log) :
    ∃ t' id, st.table.declareIdentifier? scope x ty = some (t', id) ∧
      Table.OnlyMarks t' (checkStmt c scope st (.decl span x ty init)).2.2.table := by
  unfold checkStmt State.declare at hc ⊢
  dsimp only at hc ⊢
  generalize hst₁ : (if ty.isVariable = true then st
      else st.add c (.invalidVariableType x ty.name) span) = st₁ at hc ⊢
  have htab : st₁.table = st.table := by
    rw [← hst₁]
    split <;> rfl
  rw [← htab]
  cases init with
  | none =>
    dsimp only at hc ⊢
    cases hd : st₁.table.declareIdentifier? scope x ty with
    | none =>
      rw [hd] at hc
      exact absurd hc (State.not_clean_add _ _ _ _)
    | some r => exact ⟨r.1, r.2, rfl, .refl r.1⟩
  | some e =>
    have hinfer : (st₁.infer c scope e).2.table = st₁.table := rfl
    dsimp only at hc ⊢
    rw [hinfer] at hc ⊢
    cases hd : st₁.table.declareIdentifier? scope x ty with
    | none =>
      rw [hd] at hc
      exact absurd hc (State.not_clean_add _ _ _ _)
    | some r =>
      refine ⟨r.1, r.2, rfl, ?_⟩
      dsimp only
      split
      · rw [State.table_expectAssignable]
        exact Table.onlyMarks_markAssigned r.1 r.2 scope
      · exact Table.onlyMarks_markAssigned r.1 r.2 scope

/-- A statement without bodies that is no declaration makes no identifier. -/
theorem checkStmt_onlyMarks {s : Stmt} (hb : s.bodies = []) (hd : s.declared? = none) :
    Table.OnlyMarks st.table (checkStmt c scope st s).2.2.table := by
  cases s with
  | expr _ _ => exact .refl st.table
  | decl _ _ _ _ => cases hd
  | assign _ x _ value =>
    unfold checkStmt State.assign
    dsimp only
    split
    · exact .refl st.table
    · dsimp only
      rw [State.table_expectAssignable]
      exact Table.onlyMarks_markAssigned st.table _ scope
  | assignElement span a is target value =>
    have htab : (checkStmt c scope st (.assignElement span a is target value)).2.2.table =
        st.table := by
      unfold checkStmt State.assignElement
      dsimp only
      split
      · split
        · rfl
        · exact State.table_expectAssignable ..
      · exact State.table_expectAssignable ..
    rw [htab]
    exact .refl st.table
  | ret span value =>
    have htab : (checkStmt c scope st (.ret span value)).2.2.table = st.table := by
      unfold checkStmt State.ret
      cases value with
      | none =>
        dsimp only
        split <;> rfl
      | some e =>
        dsimp only
        split
        · split <;> rfl
        · exact State.table_expectAssignable ..
    rw [htab]
    exact .refl st.table
  | ifThen _ _ _ | ifElse _ _ _ _ | «while» _ _ _ | doWhile _ _ _ | block _ _ => cases hb

theorem size_declareIdentifier {t t' : Table} {id : Nat} {x : String} {ty : Ty}
    (hd : t.declareIdentifier? scope x ty = some (t', id)) :
    t'.identifiers.size = t.identifiers.size + 1 := by
  obtain ⟨_, _, rfl⟩ := Table.declareIdentifier?_eq_some hd
  exact Array.size_push ..

theorem getElem?_declareIdentifier {t t' t'' : Table} {id : Nat} {x : String} {ty : Ty}
    (hd : t.declareIdentifier? scope x ty = some (t', id)) (hk : Table.Kept 0 t' t'') :
    ∃ i, t''.identifiers[id]? = some i ∧ i.id = id ∧ i.ty = ty := by
  obtain ⟨_, rfl, rfl⟩ := Table.declareIdentifier?_eq_some hd
  obtain ⟨a, ha, _⟩ := hk.identifier t.identifiers.size _ Array.getElem?_push_size
  exact ⟨_, ha, rfl, rfl⟩

theorem checkStmt_last {body : List Stmt} {s : Stmt} {j : Nat} (h : IsBody body s j)
    (hlast : s.bodies.length = j + 1) (c : Setting) (scope : Nat) (st : State) :
    Table.OnlyMarks
      (checkStmts c (enter c scope st s j).1 (enter c scope st s j).2 [] false body).2.2.table
      (checkStmt c scope st s).2.2.table := by
  cases h with
  | ifThen | «while» => exact .refl _
  | first => cases hlast
  | second => exact Table.onlyMarks_markAllAssigned _ _ scope
  | @doWhile span cond =>
    show Table.OnlyMarks _
      ((lookupState c scope st (.doWhile span body cond)).condition c scope cond).2.table
    rw [State.table_condition]
    exact Table.onlyMarks_markAllAssigned _ _ scope
  | block => exact Table.onlyMarks_markAllAssigned _ _ scope

mutual

/-- Without a report every declaration in a statement makes one identifier. -/
theorem checkStmt_size {b : Block} {Γ : Ctx} {scope : Nat} (st : State)
    (h : Stands st.table scope fs (b :: Γ)) :
    ∀ s : Stmt, Clean (checkStmt c scope st s).2.2.log →
      (checkStmt c scope st s).2.2.table.identifiers.size =
        st.table.identifiers.size + s.declarations
  | .expr _ _, _ | .assign _ _ _ _, _ | .assignElement _ _ _ _ _, _ | .ret _ _, _ =>
    (checkStmt_onlyMarks rfl rfl).size
  | .decl span x ty init, hc => by
    obtain ⟨t', id, hd, hmarks⟩ := checkStmt_decl hc
    rw [hmarks.size, size_declareIdentifier hd, Stmt.declarations]
  | .ifThen span cond body, hc | .while span cond body, hc => by
    have htab := State.table_condition st c scope cond
    have h₁ := h.past_condition c cond
    have hbody := checkStmts_size _ h₁.inner.1 body hc
    rw [Stmt.declarations, ← htab]
    exact hbody
  | .ifElse span cond body other, hc => by
    have htab := State.table_condition st c scope cond
    have h₁ := h.past_condition c cond
    obtain ⟨h₂, _, _⟩ := h₁.after_inner c body rfl
    have hc₁ := (checkStmts_sound (c := c) _ h₂.inner.1 other).clean hc
    have hbody := checkStmts_size _ h₁.inner.1 body hc₁
    have hother := checkStmts_size _ h₂.inner.1 other hc
    have hsize : (st.condition c scope cond).2.table.identifiers.size = st.table.identifiers.size :=
      congrArg (·.identifiers.size) htab
    rw [(checkStmt_last .second rfl c scope st).size, Stmt.declarations, ← hsize, ← Nat.add_assoc]
    exact hother.trans (congrArg (· + stmtsDeclarations other) hbody)
  | .doWhile span body cond, hc => by
    obtain ⟨_, _, hs⟩ := h.promote_inner c body rfl
    have hbody := checkStmts_size _ h.inner.1 body (hs.condition hc).1
    rw [(checkStmt_last .doWhile rfl c scope st).size, Stmt.declarations]
    exact hbody
  | .block span body, hc => by
    have hbody := checkStmts_size _ h.inner.1 body hc
    rw [(checkStmt_last .block rfl c scope st).size, Stmt.declarations]
    exact hbody

theorem checkStmts_size {b : Block} {Γ : Ctx} {scope : Nat} (st : State)
    (h : Stands st.table scope fs (b :: Γ)) :
    ∀ ss : List Stmt, Clean (checkStmts c scope st [] false ss).2.2.log →
      (checkStmts c scope st [] false ss).2.2.table.identifiers.size =
        st.table.identifiers.size + stmtsDeclarations ss
  | [], _ => rfl
  | s :: rest, hc => by
    rw [checkStmts_cons] at hc ⊢
    have hhead := checkStmt_sound (c := c) st h s
    obtain ⟨b', Γ', heq, _⟩ := after_cons b Γ (checkStmt c scope st s).1
    have hmid := heq ▸ hhead.stands
    have hc₁ := (checkStmts_sound (c := c) _ hmid rest).clean hc
    have hs := checkStmt_size st h s hc₁
    have hrest := checkStmts_size _ hmid rest hc
    rw [stmtsDeclarations, ← Nat.add_assoc, ← hs]
    exact hrest

end

/-- A statement brings the variable that it declares itself into sight, and no other. -/
theorem Stands.inSight_checkStmt (h : Stands st.table scope fs (b :: Γ)) {s : Stmt}
    (hc : Clean (checkStmt c scope st s).2.2.log) :
    (checkStmt c scope st s).2.2.table.inSight scope =
      (s.declared?.map fun v => (v.1, st.table.identifiers.size)).toList ++
        st.table.inSight scope := by
  have hlt := h.tracks.lt_size
  have hlast : ∀ {body : List Stmt} {s : Stmt} {j : Nat}, IsBody body s j →
      s.bodies.length = j + 1 →
      (checkStmt c scope st s).2.2.table.inSight scope = st.table.inSight scope := by
    intro body s j hb hj
    rw [(checkStmt_last hb hj c scope st).inSight]
    exact h.inSight_enter c hb
  cases s with
  | expr | assign | assignElement | ret => exact (checkStmt_onlyMarks rfl rfl).inSight scope
  | decl span x ty init =>
    obtain ⟨t', id, hd, hmarks⟩ := checkStmt_decl hc
    obtain ⟨_, hid, _⟩ := Table.declareIdentifier?_eq_some hd
    rw [hmarks.inSight, h.formed.inSight_declareIdentifier hlt hd, hid]
    rfl
  | ifThen => exact hlast .ifThen rfl
  | ifElse => exact hlast .second rfl
  | «while» => exact hlast .while rfl
  | doWhile => exact hlast .doWhile rfl
  | block => exact hlast .block rfl

/-! ### Into a body -/

/-- What holds where checking comes to a body, if it reports nothing. -/
structure Entered (fs : List FunctionDecl) (c : Setting) (scope : Nat) (st : State) (before : Nat)
    (body : List Stmt) (e : Nat × State) : Prop where
  stands : ∃ b Γ, Stands e.2.table e.1 fs (b :: Γ)
  clean : Clean (checkStmts c e.1 e.2 [] false body).2.2.log
  inSight : e.2.table.inSight e.1 = st.table.inSight scope
  kept : Table.Kept 0 st.table e.2.table
  size : e.2.table.identifiers.size = st.table.identifiers.size + before

theorem Stands.entered (h : Stands st.table scope fs (b :: Γ)) {st' : State}
    (htab : st'.table = st.table) {body : List Stmt}
    (hc : Clean (checkStmts c (st'.inner scope).1 (st'.inner scope).2 [] false body).2.2.log) :
    Entered fs c scope st 0 body (st'.inner scope) := by
  have h' : Stands st'.table scope fs (b :: Γ) := htab ▸ h
  obtain ⟨hs, hsame, hk⟩ := h'.inner
  rw [htab] at hsame hk
  exact ⟨⟨_, _, hs⟩, hc, hsame, hk.mono (Nat.zero_le _), congrArg (·.identifiers.size) htab⟩

/-- Checking comes to the bodies of a statement without a report. -/
theorem Stands.enter (h : Stands st.table scope fs (b :: Γ)) {s : Stmt} {j : Nat}
    {body : List Stmt} (hb : IsBody body s j) (hc : Clean (checkStmt c scope st s).2.2.log) :
    Entered fs c scope st (s.before true j) body (enter c scope st s j) := by
  cases hb with
  | @ifThen _ cond | @«while» _ cond => exact h.entered (State.table_condition st c scope cond) hc
  | block => exact h.entered rfl hc
  | doWhile =>
    obtain ⟨_, _, hs⟩ := h.promote_inner c body rfl
    exact h.entered rfl (hs.condition hc).1
  | @first _ cond other =>
    have htab := State.table_condition st c scope cond
    have h₁ := h.past_condition c cond
    obtain ⟨h₂, _, _⟩ := h₁.after_inner c body rfl
    exact h.entered htab ((checkStmts_sound (c := c) _ h₂.inner.1 other).clean hc)
  | @second _ cond first =>
    have htab := State.table_condition st c scope cond
    have h₁ := h.past_condition c cond
    obtain ⟨h₂, hsame, hk⟩ := h₁.after_inner c first rfl
    obtain ⟨h₃, hsame', hk'⟩ := h₂.inner
    have hfirst := checkStmts_size _ h₁.inner.1 first
      ((checkStmts_sound (c := c) _ h₂.inner.1 body).clean hc)
    rw [htab] at hsame hk
    refine ⟨⟨_, _, h₃⟩, hc, hsame'.trans hsame,
      (hk.mono (Nat.zero_le _)).trans (hk'.mono (Nat.zero_le _)), ?_⟩
    exact hfirst.trans (congrArg (·.identifiers.size + stmtsDeclarations first) htab)

/-- Where names are looked up, the same is in sight as before the statement. -/
theorem Stands.lookupState (h : Stands st.table scope fs (b :: Γ)) (c : Setting) (s : Stmt) :
    (lookupState c scope st s).table.inSight scope = st.table.inSight scope ∧
      Table.Kept 0 st.table (lookupState c scope st s).table := by
  cases s with
  | doWhile span body cond =>
    obtain ⟨_, hsame, hk⟩ := h.after_inner c body rfl
    refine ⟨?_, (hk.mono (Nat.zero_le _)).trans
      ((Table.kept_markAllAssigned _ _ scope).mono (Nat.zero_le _))⟩
    exact ((Table.onlyMarks_markAllAssigned _ _ scope).inSight scope).trans hsame
  | expr | decl | assign | assignElement | ifThen | ifElse | «while» | ret | block =>
    exact ⟨rfl, Table.Kept.refl 0 _⟩

end

/-! ### Names that mean something -/

section

variable {s : Sight} {fs : List FunctionDecl} {Γ : Ctx}

theorem Sight.read_resolves {log : Log} {x : String} {span : Span}
    (hc : Clean (s.read log x span).2) :
    (s.table.resolveIdentifier? s.scope x).isSome = true := by
  unfold Sight.read at hc
  cases hr : s.table.resolveIdentifier? s.scope x with
  | none =>
    rw [hr] at hc
    exact absurd hc (s.not_clean_add _ _ _)
  | some i => rfl

mutual

/-- Without a report every name in an expression means an identifier. -/
theorem infer_resolves (h : Stands s.table s.scope fs Γ) :
    ∀ {log : Log} (e : Expr), Clean (infer s log e).2 →
      ∀ x ∈ e.names, (s.table.resolveIdentifier? s.scope x).isSome = true
  | _, .literal _ _, _, x, hx => absurd hx List.not_mem_nil
  | _, .name n y, hc, x, hx => by
    obtain rfl := List.mem_singleton.mp hx
    exact Sight.read_resolves hc
  | _, .arith n op l r, hc, x, hx | _, .compare n op l r, hc, x, hx
  | _, .logic n op l r, hc, x, hx => by
    have hr := (Sight.combine_clean hc).1
    have hl := (infer_sound h r hr).1
    rcases List.mem_append.mp hx with hx | hx
    · exact infer_resolves h l hl x hx
    · exact infer_resolves h r hr x hx
  | _, .not n e, hc, x, hx => infer_resolves h e (Sight.negate_clean hc).1 x hx
  | _, .index n a is, hc, x, hx => by
    have his := (Sight.element_clean hc).1
    rcases List.mem_cons.mp hx with rfl | hx
    · exact Sight.read_resolves (inferAll_sound h is his).1
    · exact inferAll_resolves h is his x hx
  | _, .call n f args, hc, x, hx => inferAll_resolves h args (h.call hc).1 x hx
  | _, .newArray n e dims, hc, x, hx => inferAll_resolves h dims (Sight.array_clean hc).1 x hx

theorem inferAll_resolves (h : Stands s.table s.scope fs Γ) :
    ∀ {log : Log} {integers : Option String} (es : List Expr),
      Clean (inferAll s integers log [] es).2 →
        ∀ x ∈ exprsNames es, (s.table.resolveIdentifier? s.scope x).isSome = true
  | _, _, [], _, x, hx => absurd hx List.not_mem_nil
  | log, integers, e :: es, hc, x, hx => by
    rw [inferAll_cons] at hc
    have hrest := (inferAll_sound h es hc).1
    have he : Clean (infer s log e).2 := by
      cases integers with
      | none => exact hrest
      | some what => exact (Sight.expectInteger_clean hrest).1
    rcases List.mem_append.mp hx with hx | hx
    · exact infer_resolves h e he x hx
    · exact inferAll_resolves h es hc x hx

end

end

section

variable {fs : List FunctionDecl} {c : Setting} {b : Block} {Γ : Ctx} {scope : Nat} {st : State}

theorem Stands.infer_resolves (h : Stands st.table scope fs Γ) {e : Expr}
    (hc : Clean (st.infer c scope e).2.log) :
    ∀ x ∈ e.names, (st.table.resolveIdentifier? scope x).isSome = true := by
  have hs : Stands (Sight.mk st.table scope c.file).table (Sight.mk st.table scope c.file).scope
      fs Γ := h
  exact Typing.infer_resolves hs e hc

theorem Stands.condition_resolves (h : Stands st.table scope fs Γ) {e : Expr}
    (hc : Clean (st.condition c scope e).2.log) :
    ∀ x ∈ e.names, (st.table.resolveIdentifier? scope x).isSome = true := by
  refine h.infer_resolves (c := c) ?_
  unfold State.condition at hc
  dsimp only at hc
  split at hc
  · exact hc
  · exact absurd hc (State.not_clean_add _ c _ _)

/-- The initializer of a declaration is checked before the variable is there. -/
theorem State.declare_init (st : State) (c : Setting) (scope : Nat) (span : Span) (x : String)
    (ty : Ty) (e : Expr) :
    ∃ st₁ : State, st₁.table = st.table ∧
      (st.declare c scope span x ty (some e)).1 = some (st₁.infer c scope e).1 ∧
      (Clean (st.declare c scope span x ty (some e)).2.log →
        Clean (st₁.infer c scope e).2.log) := by
  unfold State.declare
  dsimp only
  generalize hst₁ : (if ty.isVariable = true then st
    else st.add c (.invalidVariableType x ty.name) span) = st₁
  refine ⟨st₁, ?_, ?_, fun hc => ?_⟩
  · rw [← hst₁]
    split <;> rfl
  · split
    · rfl
    · rfl
  · split at hc
    · exact absurd hc (State.not_clean_add _ c _ _)
    · dsimp only at hc
      split at hc
      · exact (State.expectAssignable_clean hc).1
      · exact hc

theorem State.ret_value (st : State) (c : Setting) (scope : Nat) (span : Span) (e : Expr) :
    (st.ret c scope span (some e)).1 = some (st.infer c scope e).1 ∧
      (Clean (st.ret c scope span (some e)).2.log → Clean (st.infer c scope e).2.log) := by
  unfold State.ret
  dsimp only
  split
  · split
    · exact ⟨rfl, fun hc => absurd hc (State.not_clean_add _ c _ _)⟩
    · exact ⟨rfl, id⟩
  · exact ⟨rfl, fun hc => (State.expectAssignable_clean hc).1⟩

theorem assignElement_clean {span target : Span} {a : String} {is : List Expr} {value : Expr}
    (hc : Clean (checkStmt c scope st (.assignElement span a is target value)).2.2.log) :
    Clean (inferAll ⟨st.table, scope, c.file⟩ (some "index") (Sight.read
      ⟨st.table, scope, c.file⟩ (st.infer c scope value).2.log a target).2 [] is).2 := by
  have hel : Clean (inferElement ⟨st.table, scope, c.file⟩ (st.infer c scope value).2.log a is
      target).2.2 := by
    unfold checkStmt State.assignElement at hc
    dsimp only at hc
    split at hc
    · split at hc
      · exact absurd hc (State.not_clean_add _ c _ _)
      · exact (State.expectAssignable_clean hc).1
    · exact (State.expectAssignable_clean hc).1
  exact (Sight.element_clean hel).1

/-- Without a report the target of an assignment means an identifier. -/
theorem Stands.target_resolves (h : Stands st.table scope fs (b :: Γ)) {s : Stmt} {x : String}
    (hc : Clean (checkStmt c scope st s).2.2.log) (hx : s.target? = some x) :
    (st.table.resolveIdentifier? scope x).isSome = true := by
  cases s with
  | assign span y target value =>
    obtain rfl := Option.some.inj hx
    unfold checkStmt State.assign at hc
    dsimp only at hc
    have hsame : (st.infer c scope value).2.table = st.table := rfl
    rw [hsame] at hc
    cases hr : st.table.resolveIdentifier? scope y with
    | none =>
      rw [hr] at hc
      exact absurd hc (State.not_clean_add _ c _ _)
    | some i => rfl
  | assignElement span a is target value =>
    obtain rfl := Option.some.inj hx
    have hs : Stands (Sight.mk st.table scope c.file).table (Sight.mk st.table scope c.file).scope
        fs (b :: Γ) := h
    exact Sight.read_resolves (inferAll_sound hs is (assignElement_clean hc)).1
  | expr | decl | ifThen | ifElse | «while» | doWhile | ret | block => cases hx

/-- Without a report every name in an expression of a statement means an identifier where it is
looked up. -/
theorem Stands.exprs_resolve (h : Stands st.table scope fs (b :: Γ)) {s : Stmt}
    (hc : Clean (checkStmt c scope st s).2.2.log) :
    ∀ e ∈ s.exprs, ∀ x ∈ e.names,
      ((Typing.lookupState c scope st s).table.resolveIdentifier? scope x).isSome = true := by
  have hcond : ∀ {cond : Expr} {body : List Stmt}, Clean (checkStmts c
      ((st.condition c scope cond).2.inner scope).1 ((st.condition c scope cond).2.inner scope).2 []
        false body).2.2.log →
      ∀ x ∈ cond.names, (st.table.resolveIdentifier? scope x).isSome = true := by
    intro cond body hc
    have h₁ := h.past_condition c cond
    exact h.condition_resolves ((checkStmts_sound (c := c) _ h₁.inner.1 body).clean hc)
  intro e he
  cases s with
  | expr _ e' =>
    obtain rfl := List.mem_singleton.mp he
    exact h.infer_resolves hc
  | decl span y ty init =>
    obtain rfl : init = some e := Option.mem_toList.mp he
    obtain ⟨st₁, htab, _, hclean⟩ := st.declare_init c scope span y ty e
    have h₁ : Stands st₁.table scope fs (b :: Γ) := htab ▸ h
    have hnames := h₁.infer_resolves (hclean hc)
    rw [htab] at hnames
    exact hnames
  | assign span y target value =>
    obtain rfl := List.mem_singleton.mp he
    have hr := h.target_resolves hc rfl
    obtain ⟨i, hi⟩ := Option.isSome_iff_exists.mp hr
    unfold checkStmt State.assign at hc
    dsimp only at hc
    have hsame : (st.infer c scope e).2.table = st.table := rfl
    rw [hsame, hi] at hc
    exact h.infer_resolves (State.expectAssignable_clean hc).1
  | assignElement span a is target value =>
    have hs : Stands (Sight.mk st.table scope c.file).table (Sight.mk st.table scope c.file).scope
        fs (b :: Γ) := h
    have his := assignElement_clean hc
    rcases List.mem_append.mp he with he | he
    · exact fun x hx => inferAll_resolves hs is his x (mem_exprsNames.mpr ⟨e, he, hx⟩)
    · obtain rfl := List.mem_singleton.mp he
      exact h.infer_resolves (hs.read (inferAll_sound hs is his).1).1
  | ret span value =>
    obtain rfl : value = some e := Option.mem_toList.mp he
    exact h.infer_resolves ((st.ret_value c scope span e).2 hc)
  | ifThen _ cond body | «while» _ cond body =>
    obtain rfl := List.mem_singleton.mp he
    exact hcond hc
  | ifElse _ cond body other =>
    obtain rfl := List.mem_singleton.mp he
    exact hcond (h.enter .first hc).clean
  | doWhile _ body cond =>
    obtain rfl := List.mem_singleton.mp he
    obtain ⟨_, _, hs⟩ := h.promote_inner c body rfl
    exact hs.condition_resolves hc
  | block _ body => cases he

/-- Without a report every name of a statement means an identifier where it is looked up. -/
theorem Stands.names_resolve (h : Stands st.table scope fs (b :: Γ)) {s : Stmt}
    (hc : Clean (checkStmt c scope st s).2.2.log) :
    ∀ x ∈ s.names,
      ((Typing.lookupState c scope st s).table.resolveIdentifier? scope x).isSome = true := by
  intro x hx
  rcases List.mem_append.mp hx with hx | hx
  · have hx := Option.mem_toList.mp hx
    have htarget := h.target_resolves hc hx
    cases s with
    | assign | assignElement => exact htarget
    | expr | decl | ifThen | ifElse | «while» | doWhile | ret | block => cases hx
  · obtain ⟨e, he, hx⟩ := mem_exprsNames.mp hx
    exact h.exprs_resolve hc e he x hx

end

/-! ### Annotated expressions -/

/-- What checking makes of an expression that it looks at from a scope of a table. -/
def Infers (s : Sight) (e e' : Expr) : Prop := ∃ log, (infer s log e).1 = e'

theorem inferAll_infers (s : Sight) (integers : Option String) (log : Log) (es : List Expr) :
    List.Forall₂ (Infers s) es (inferAll s integers log [] es).1 := by
  induction es generalizing log with
  | nil => exact .nil
  | cons e es ih =>
    rw [inferAll_cons]
    exact .cons ⟨log, rfl⟩ (ih _)

theorem State.condition_infers (st : State) (c : Setting) (scope : Nat) (e : Expr) :
    Infers ⟨st.table, scope, c.file⟩ e (st.condition c scope e).1 := by
  unfold State.condition
  dsimp only
  split
  · exact ⟨st.log, rfl⟩
  · exact ⟨st.log, rfl⟩

/-- The expressions of a statement are annotated where its names are looked up. -/
theorem exprs_checkStmt (c : Setting) (scope : Nat) (st : State) (s : Stmt) :
    List.Forall₂ (Infers ⟨(lookupState c scope st s).table, scope, c.file⟩) s.exprs
      (checkStmt c scope st s).1.exprs := by
  cases s with
  | expr _ e | assign _ _ _ e => exact .cons ⟨st.log, rfl⟩ .nil
  | decl span x ty init =>
    cases init with
    | none =>
      unfold checkStmt State.declare
      dsimp only
      split
      · exact .nil
      · exact .nil
    | some e =>
      obtain ⟨st₁, htab, hinit, _⟩ := st.declare_init c scope span x ty e
      have hsame : Infers ⟨st.table, scope, c.file⟩ e (st₁.infer c scope e).1 := by
        rw [← htab]
        exact ⟨st₁.log, rfl⟩
      unfold checkStmt
      dsimp only
      rw [hinit]
      exact .cons hsame .nil
  | assignElement span a is target value =>
    have his : (checkStmt c scope st (.assignElement span a is target value)).1.exprs =
        (inferElement ⟨st.table, scope, c.file⟩ (st.infer c scope value).2.log a is target).2.1 ++
          [(st.infer c scope value).1] := by
      unfold checkStmt State.assignElement
      dsimp only
      split
      · split
        · rfl
        · rfl
      · rfl
    rw [his]
    exact List.rel_append (inferAll_infers _ _ _ is) (.cons ⟨st.log, rfl⟩ .nil)
  | ret span value =>
    cases value with
    | none =>
      unfold checkStmt State.ret
      dsimp only
      split
      · exact .nil
      · exact .nil
    | some e =>
      unfold checkStmt
      dsimp only
      rw [(st.ret_value c scope span e).1]
      exact .cons ⟨st.log, rfl⟩ .nil
  | ifThen _ cond _ | ifElse _ cond _ _ | «while» _ cond _ =>
    exact .cons (State.condition_infers st c scope cond) .nil
  | doWhile _ body cond => exact .cons (State.condition_infers _ c scope cond) .nil
  | block => exact .nil

end Quill.Typing
