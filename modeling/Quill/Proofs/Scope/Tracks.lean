import Quill.Proofs.Scope.Chain
import Quill.Proofs.Typing.Flow

/-! # Symbol tables and contexts

`Tracks t here s Γ` says that the scope `s` of a table and the scopes around it declare the
variables of the context `Γ`, block by block, and that the table vouches for a variable in the
block `here` exactly if the context calls it assigned.  The root scope declares no variables.

Each step of checking keeps this: a new scope is a new innermost block, a declaration adds to the
innermost block, an assignment marks the variable that its name means, and promoting what an inner
block assigned gives the outer block what the context after the inner block says. -/

namespace Quill.Typing

open Scope (Table Identifier Entry Assigned)

/-- The entry of a scope and the variable of a block are the same, seen from a block. -/
def Records (t : Table) (here s : Nat) (p : String × Nat) (q : String × Var) : Prop :=
  p.1 = q.1 ∧ ∃ i, t.identifiers[p.2]? = some i ∧ i.name = p.1 ∧ i.scope = s ∧ i.ty = q.2.ty ∧
    t.isAssignedAlong p.2 here = q.2.assigned

/-- The scopes from `s` on declare the variables of a context, seen from the block `here`. -/
inductive Tracks (t : Table) (here : Nat) : Nat → Ctx → Prop
  | root {e : Entry} : t.scopes[Table.root]? = some e → e.parent = none → e.identifiers = [] →
      Tracks t here Table.root []
  | inside {s p : Nat} {e : Entry} {b : Block} {Γ : Ctx} : t.scopes[s]? = some e →
      e.parent = some p → e.functions = #[] → (e.identifiers.map Prod.fst).Nodup →
      List.Forall₂ (Records t here s) e.identifiers b → Tracks t here p Γ →
      Tracks t here s (b :: Γ)

/-! ### What a table vouches for -/

theorem isAssignedAlong_eq {t : Table} {id : Nat} {i : Identifier}
    (hi : t.identifiers[id]? = some i) (here : Nat) :
    t.isAssignedAlong id here =
      (i.assigned == .everywhere || Table.coveredUpTo i (t.ancestors here)) := by
  unfold Table.isAssignedAlong
  rw [hi]

theorem coveredUpTo_congr {i i' : Identifier} (hs : i'.scope = i.scope) :
    ∀ {chain : List Nat}, (∀ a ∈ chain, i'.assigned.covers a = i.assigned.covers a) →
      Table.coveredUpTo i' chain = Table.coveredUpTo i chain
  | [], _ => rfl
  | a :: chain, h => by
    unfold Table.coveredUpTo
    rw [h a (List.mem_cons_self ..), hs,
      coveredUpTo_congr hs fun b hb => h b (List.mem_cons_of_mem _ hb)]

theorem isAssignedAlong_kept {t t' : Table} {n here id : Nat} {i : Identifier} (hf : t.Formed)
    (hk : Table.Kept n t t') (hn : n ≤ t.scopes.size) (hh : here < n)
    (hi : t.identifiers[id]? = some i) (hs : i.scope < n) :
    t'.isAssignedAlong id here = t.isAssignedAlong id here := by
  obtain ⟨a, ha, hsame⟩ := hk.identifier id i hi
  obtain ⟨hev, hcov⟩ := hsame hs
  have hanc : t'.ancestors here = t.ancestors here :=
    hf.ancestors_congr (fun r hr => hk.parent? r (by omega)) hh
  have hlt : ∀ b ∈ t.ancestors here, b < n := fun b hb =>
    Nat.lt_of_le_of_lt (hf.le_of_mem_ancestors hb) hh
  have hchain : Table.coveredUpTo { i with assigned := a } (t.ancestors here) =
      Table.coveredUpTo i (t.ancestors here) := by
    apply coveredUpTo_congr
    · rfl
    · exact fun b hb => hcov b (hlt b hb)
  rw [isAssignedAlong_eq hi, isAssignedAlong_eq ha, hanc, hchain]
  congr 1
  rw [Bool.eq_iff_iff, beq_iff_eq, beq_iff_eq]
  exact hev

theorem ancestors_eq_of_scopes {t t' : Table} (h : t'.scopes = t.scopes) (s : Nat) :
    t'.ancestors s = t.ancestors s := by
  have hp : ∀ r, t'.parent? r = t.parent? r := fun r => by rw [Table.parent?, Table.parent?, h]
  unfold Table.ancestors
  generalize s + 1 = fuel
  induction fuel generalizing s with
  | zero => rfl
  | succ fuel ih =>
    unfold Table.ancestorsUpTo
    rw [hp s]
    cases t.parent? s with
    | none => rfl
    | some p => exact congrArg (s :: ·) (ih p)

theorem isAssignedAlong_markAssigned {t : Table} {k : Nat} {i : Identifier}
    (hi : t.identifiers[k]? = some i) (id here : Nat) :
    (t.markAssigned id here).isAssignedAlong k here = (t.isAssignedAlong k here || k == id) := by
  have hanc := ancestors_eq_of_scopes (Table.scopes_markAssigned t id here) here
  have hget := Table.getElem?_markAssigned t id here k
  rw [hi, Option.map_some] at hget
  rw [isAssignedAlong_eq hget, isAssignedAlong_eq hi, hanc]
  by_cases hk : k = id
  · have hhead : t.ancestors here = here :: (t.ancestors here).tail := by
      unfold Table.ancestors Table.ancestorsUpTo
      rfl
    rw [if_pos hk, hhead]
    simp only [Table.coveredUpTo, Identifier.covers_marked, hk, beq_self_eq_true, Bool.or_true,
      Bool.true_or]
  · rw [if_neg hk]
    simp [hk]

theorem isAssignedAlong_markAllAssigned {t : Table} {k : Nat} {i : Identifier}
    (hi : t.identifiers[k]? = some i) (ids : List Nat) (here : Nat) :
    (t.markAllAssigned ids here).isAssignedAlong k here =
      (t.isAssignedAlong k here || ids.contains k) := by
  unfold Table.markAllAssigned
  induction ids generalizing t i with
  | nil => simp
  | cons id ids ih =>
    have hget := Table.getElem?_markAssigned t id here k
    rw [hi, Option.map_some] at hget
    rw [List.foldl_cons, ih hget, isAssignedAlong_markAssigned hi, List.contains_cons,
      Bool.or_assoc]

/-- A block vouches for what the block around it vouches for and for what it names itself. -/
theorem isAssignedAlong_inner {t : Table} {inner outer k : Nat} {i : Identifier} (hf : t.Formed)
    (hp : t.parent? inner = some outer) (hi : t.identifiers[k]? = some i) (hs : i.scope ≠ inner) :
    t.isAssignedAlong k inner = (t.isAssignedAlong k outer || Table.namesBlock i inner) := by
  rw [isAssignedAlong_eq hi, isAssignedAlong_eq hi, hf.ancestors_of_parent hp]
  simp only [Table.coveredUpTo]
  have hne : (inner != i.scope) = true := by simpa [bne_iff_ne] using fun h => hs h.symm
  rw [hne, Bool.true_and]
  cases ha : i.assigned with
  | everywhere => simp [Assigned.covers]
  | inBlocks blocks =>
    simp only [Assigned.covers, Table.namesBlock, ha]
    cases blocks.contains inner <;> simp

theorem contains_assignedIn {t : Table} {block k : Nat} {i : Identifier} (hf : t.Formed)
    (hi : t.identifiers[k]? = some i) :
    (t.assignedIn block).contains k = Table.namesBlock i block := by
  rw [Bool.eq_iff_iff, List.contains_iff_mem]
  unfold Table.assignedIn
  rw [List.mem_map]
  constructor
  · rintro ⟨j, hj, hid⟩
    rw [List.mem_filter, List.mem_iff_getElem?] at hj
    obtain ⟨⟨n, hn⟩, hnames⟩ := hj
    rw [Array.getElem?_toList] at hn
    have hnk : n = k := (hf.id_eq n j hn).symm.trans hid
    rw [hnk, hi] at hn
    exact Option.some.inj hn ▸ hnames
  · intro hnames
    refine ⟨i, List.mem_filter.mpr ⟨?_, hnames⟩, hf.id_eq k i hi⟩
    rw [List.mem_iff_getElem?]
    exact ⟨k, by rw [Array.getElem?_toList, hi]⟩

/-! ### Looking up -/

theorem lookup_records {t : Table} {here s : Nat} {ids : List (String × Nat)} {b : Block}
    (h : List.Forall₂ (Records t here s) ids b) (x : String) :
    Option.Rel (fun id v => Records t here s (x, id) (x, v)) (ids.lookup x) (b.lookup x) := by
  induction h with
  | nil => exact .none
  | @cons p q ids b hpq _ ih =>
    rw [List.lookup_cons, List.lookup_cons, ← hpq.1]
    cases hx : x == p.1 with
    | false => exact ih
    | true =>
      have hxp : x = p.1 := eq_of_beq hx
      refine .some ?_
      rw [hxp]
      exact ⟨rfl, hpq.2⟩

theorem Tracks.lt_size {t : Table} {here s : Nat} {Γ : Ctx} (h : Tracks t here s Γ) :
    s < t.scopes.size := by
  cases h with
  | root he => exact (Array.getElem?_eq_some_iff.mp he).1
  | inside he => exact (Array.getElem?_eq_some_iff.mp he).1

/-- Around the innermost scope stand the scopes of the other blocks. -/
theorem Tracks.outer {t : Table} {here s p : Nat} {b : Block} {Γ : Ctx}
    (h : Tracks t here s (b :: Γ)) (hp : t.parent? s = some p) : Tracks t here p Γ := by
  cases h with
  | @inside _ q e _ _ he hq _ _ _ hΓ =>
    rw [Table.parent?, he] at hp
    have hqp : q = p := Option.some.inj (hq.symm.trans hp)
    exact hqp ▸ hΓ

theorem Tracks.findSome?_declared {t : Table} (hf : t.Formed) {here s : Nat} {Γ : Ctx}
    (h : Tracks t here s Γ) (x : String) :
    Option.Rel (fun id v => ∃ i, t.identifiers[id]? = some i ∧ i.name = x ∧ i.ty = v.ty ∧
        t.isAssignedAlong id here = v.assigned)
      ((t.ancestors s).findSome? (t.declared? · x)) (Γ.find? x) := by
  induction h with
  | @root e he hp hids =>
    have hpar : t.parent? Table.root = none := by rw [Table.parent?, he]; exact hp
    have hdecl : t.declared? Table.root x = none := by
      rw [Table.declared?, he]
      simp [hids]
    rw [Table.ancestors_of_none hpar, List.findSome?_cons, hdecl]
    exact .none
  | @inside s p e b Γ he hp _ _ hrec _ ih =>
    have hpar : t.parent? s = some p := by rw [Table.parent?, he]; exact hp
    have hdecl : t.declared? s x = e.identifiers.lookup x := by rw [Table.declared?, he]; rfl
    rw [hf.ancestors_of_parent hpar, List.findSome?_cons, hdecl, Ctx.find?_cons]
    have hrel := lookup_records hrec x
    generalize e.identifiers.lookup x = found, b.lookup x = known at hrel
    cases hrel with
    | none => exact ih
    | some hr =>
      obtain ⟨_, i, hi, hn, _, hty, ha⟩ := hr
      exact .some ⟨i, hi, hn, hty, ha⟩

theorem Tracks.resolveIdentifier? {t : Table} (hf : t.Formed) {here s : Nat} {Γ : Ctx}
    (h : Tracks t here s Γ) (x : String) :
    Option.Rel (fun i v => i.ty = v.ty ∧ t.isAssignedAlong i.id here = v.assigned)
      (t.resolveIdentifier? s x) (Γ.find? x) := by
  unfold Table.resolveIdentifier?
  have hrel := h.findSome?_declared hf x
  generalize (t.ancestors s).findSome? (t.declared? · x) = found, Γ.find? x = known at hrel
  cases hrel with
  | none => exact .none
  | some hr =>
    obtain ⟨i, hi, _, hty, ha⟩ := hr
    rw [Option.bind_some, hi]
    exact .some ⟨hty, by rw [hf.id_eq _ i hi]; exact ha⟩

/-! ### Steps that leave the blocks as they are -/

/-- A table in which the scopes declare the same and other blocks vouch for the same tracks the
same context from there. -/
theorem Tracks.transport {t t' : Table} {here here' s : Nat} {Γ : Ctx} (hf : t.Formed)
    (h : Tracks t here s Γ)
    (hscope : ∀ r ≤ s, ∀ e, t.scopes[r]? = some e → ∃ e', t'.scopes[r]? = some e' ∧
      e'.parent = e.parent ∧ e'.identifiers = e.identifiers ∧ e'.functions = e.functions)
    (hid : ∀ (k : Nat) i, t.identifiers[k]? = some i → i.scope ≤ s → ∃ a,
      t'.identifiers[k]? = some { i with assigned := a } ∧
        t'.isAssignedAlong k here' = t.isAssignedAlong k here) : Tracks t' here' s Γ := by
  induction h with
  | root he hp hids =>
    obtain ⟨e', he', hp', hids', _⟩ := hscope _ (Nat.le_refl _) _ he
    exact .root he' (hp'.trans hp) (hids'.trans hids)
  | @inside s p e b Γ he hp hfun hnd hrec _ ih =>
    obtain ⟨e', he', hp', hids', hfun'⟩ := hscope s (Nat.le_refl _) e he
    have hps : p < s := hf.parent_lt s p (by rw [Table.parent?, he]; exact hp)
    refine .inside he' (hp'.trans hp) (hfun'.trans hfun) (hids' ▸ hnd) ?_
      (ih (fun r hr => hscope r (by omega)) fun k i hi hs => hid k i hi (by omega))
    rw [hids']
    refine hrec.imp fun p q hpq => ?_
    obtain ⟨hname, i, hi, hn, hsc, hty, ha⟩ := hpq
    obtain ⟨a, hi', halong⟩ := hid p.2 i hi (Nat.le_of_eq hsc)
    exact ⟨hname, _, hi', hn, hsc, hty, halong.trans ha⟩

/-- Seen from below a number, what is kept there is tracked as before. -/
theorem Tracks.kept {t t' : Table} {n here s : Nat} {Γ : Ctx} (h : Tracks t here s Γ)
    (hf : t.Formed) (hk : Table.Kept n t t') (hn : n ≤ t.scopes.size) (hh : here < n)
    (hs : s < n) : Tracks t' here s Γ := by
  refine h.transport hf (fun r hr => hk.scope r (by omega)) fun k i hi hsc => ?_
  obtain ⟨a, ha, _⟩ := hk.identifier k i hi
  exact ⟨a, ha, isAssignedAlong_kept hf hk hn hh hi (by omega)⟩

theorem Tracks.child {t : Table} {scope : Nat} {Γ : Ctx} (hf : t.Formed)
    (h : Tracks t scope scope Γ) :
    Tracks (t.child scope).1 (t.child scope).2 (t.child scope).2 ([] :: Γ) := by
  have hlt := h.lt_size
  have hnew := Table.getElem?_scopes_child t scope t.scopes.size
  rw [if_pos rfl] at hnew
  refine .inside hnew rfl rfl (by simp [Entry.fresh]) .nil ?_
  have hk := Table.kept_child t scope
  refine h.transport hf (fun r hr => hk.scope r (by omega)) fun k i hi hsc => ?_
  have hne : i.scope ≠ t.scopes.size := by omega
  have hnames : Table.namesBlock i t.scopes.size = false := by
    unfold Table.namesBlock
    cases hb : i.assigned with
    | everywhere => rfl
    | inBlocks blocks =>
      rw [Bool.eq_false_iff]
      intro hc
      have := hf.blocks_lt _ i blocks _ hi hb (Array.contains_iff_mem.mp hc)
      omega
  refine ⟨i.assigned, hi, ?_⟩
  have hi' : (t.child scope).1.identifiers[k]? = some i := hi
  show (t.child scope).1.isAssignedAlong k t.scopes.size = _
  rw [isAssignedAlong_inner (hf.child hlt) (Table.parent?_child_new t scope) hi' hne, hnames,
    Bool.or_false, isAssignedAlong_kept hf hk (Nat.le_refl _) hlt hi (by omega)]

theorem Tracks.promote {t : Table} {inner outer : Nat} {b : Block} {Γ : Ctx} (hf : t.Formed)
    (h : Tracks t inner inner (b :: Γ)) (hp : t.parent? inner = some outer) :
    Tracks (t.promote inner outer) outer outer Γ := by
  have hlt : outer < inner := hf.parent_lt inner outer hp
  have hk := Table.kept_markAllAssigned t (t.assignedIn inner) outer
  refine (h.outer hp).transport hf (fun r _ e he => ⟨e, ?_, rfl, rfl, rfl⟩) fun k i hi hsc => ?_
  · unfold Table.promote
    rw [Table.scopes_markAllAssigned, he]
  · obtain ⟨a, ha, _⟩ := hk.identifier k i hi
    refine ⟨a, ha, ?_⟩
    unfold Table.promote
    rw [isAssignedAlong_markAllAssigned hi, contains_assignedIn hf hi,
      isAssignedAlong_inner hf hp hi (by omega)]

/-! ### Declarations -/

theorem Tracks.declare {t t' : Table} {scope id : Nat} {x : String} {ty : Ty} {b : Block} {Γ : Ctx}
    (hf : t.Formed) (h : Tracks t scope scope (b :: Γ))
    (hd : t.declareIdentifier? scope x ty = some (t', id)) :
    Tracks t' scope scope (((x, ⟨ty, false⟩) :: b) :: Γ) := by
  have hanc : t'.ancestors scope = t.ancestors scope :=
    hf.ancestors_congr (fun r _ => Table.parent?_declareIdentifier hd r) (Nat.lt_succ_self scope)
  have hkept := Table.kept_declareIdentifier hd
  have hold : ∀ (k : Nat) i, t.identifiers[k]? = some i → t'.identifiers[k]? = some i ∧
      t'.isAssignedAlong k scope = t.isAssignedAlong k scope := by
    intro k i hi
    have hi' : t'.identifiers[k]? = some i := by
      obtain ⟨_, rfl, rfl⟩ := Table.declareIdentifier?_eq_some hd
      have hk : k < t.identifiers.size := (Array.getElem?_eq_some_iff.mp hi).1
      rw [Array.getElem?_push, if_neg (by omega), hi]
    exact ⟨hi', by rw [isAssignedAlong_eq hi', isAssignedAlong_eq hi, hanc]⟩
  cases h with
  | @inside _ p e _ _ he hp hfun hnd hrec hΓ =>
    have hps : p < scope := hf.parent_lt scope p (by rw [Table.parent?, he]; exact hp)
    have hΓ' : Tracks t' scope p Γ :=
      hΓ.transport hf (fun r hr => hkept.scope r (by omega)) fun k i hi _ =>
        ⟨i.assigned, hold k i hi⟩
    have hrec' : List.Forall₂ (Records t' scope scope) e.identifiers b := by
      refine hrec.imp fun q r hqr => ?_
      obtain ⟨hname, i, hi, hn, hsc, hty, ha⟩ := hqr
      obtain ⟨hi', halong⟩ := hold q.2 i hi
      exact ⟨hname, i, hi', hn, hsc, hty, halong.trans ha⟩
    obtain ⟨hnone, hid, ht'⟩ := Table.declareIdentifier?_eq_some hd
    have he' : t'.scopes[scope]? = some { e with identifiers := (x, id) :: e.identifiers } := by
      rw [ht']
      simp [Array.getElem?_modify, he]
    have hnew : t'.identifiers[id]? = some
        { id, name := x, ty, level := t.level scope, scope, assigned := .inBlocks #[] } := by
      rw [ht', hid]
      simp
    have hfresh : x ∉ e.identifiers.map Prod.fst := by
      rw [Table.declared?, he] at hnone
      have hlook : e.identifiers.lookup x = none := hnone
      rw [List.lookup_eq_none_iff] at hlook
      rintro hmem
      obtain ⟨q, hq, rfl⟩ := List.mem_map.mp hmem
      simpa using hlook q hq
    have hcov : ∀ chain, Table.coveredUpTo
        { id, name := x, ty, level := t.level scope, scope, assigned := .inBlocks #[] } chain =
          false := by
      intro chain
      induction chain with
      | nil => rfl
      | cons a chain ih => simp [Table.coveredUpTo, Assigned.covers, ih]
    refine .inside he' hp hfun (List.nodup_cons.mpr ⟨hfresh, hnd⟩) (.cons ?_ hrec') hΓ'
    refine ⟨rfl, _, hnew, rfl, rfl, rfl, ?_⟩
    rw [isAssignedAlong_eq hnew, hcov]
    rfl

/-! ### Assignments -/

theorem records_markAssigned {t : Table} {here s id : Nat} {p : String × Nat} {q : String × Var}
    (h : Records t here s p q) (hne : p.2 ≠ id) :
    Records (t.markAssigned id here) here s p q := by
  obtain ⟨hname, i, hi, hn, hsc, hty, ha⟩ := h
  refine ⟨hname, i, ?_, hn, hsc, hty, ?_⟩
  · rw [Table.getElem?_markAssigned, hi]
    simp [hne]
  · rw [isAssignedAlong_markAssigned hi, ha]
    simp [hne]

/-- In the scope that declares a variable its assignment marks the entry of its name. -/
theorem records_assign {t : Table} {here s id : Nat} {x : String} {i : Identifier}
    (hi : t.identifiers[id]? = some i) (hn : i.name = x) {ids : List (String × Nat)} {b : Block}
    (hrec : List.Forall₂ (Records t here s) ids b) (hnd : (ids.map Prod.fst).Nodup)
    (hx : ids.lookup x = some id) :
    List.Forall₂ (Records (t.markAssigned id here) here s) ids (Block.assign x b) := by
  have hother : ∀ p q, Records t here s p q → x ≠ p.1 →
      Records (t.markAssigned id here) here s p q := by
    intro p q hpq hne
    refine records_markAssigned hpq fun hid => hne ?_
    obtain ⟨_, j, hj, hjn, _⟩ := hpq
    rw [hid, hi] at hj
    rw [← hn, ← hjn, Option.some.inj hj]
  induction hrec with
  | nil => cases hx
  | @cons p q ids b hpq hrest ih =>
    rw [List.map_cons, List.nodup_cons] at hnd
    rw [List.lookup_cons] at hx
    obtain ⟨y, v⟩ := q
    have hname : p.1 = y := hpq.1
    subst hname
    unfold Block.assign
    cases hxp : x == p.1 with
    | false =>
      rw [hxp] at hx
      simp only [Bool.false_eq_true, if_false]
      exact .cons (hother p _ hpq fun h => by simp [h] at hxp) (ih hnd.2 hx)
    | true =>
      rw [hxp] at hx
      have hxp' : x = p.1 := eq_of_beq hxp
      have hid : p.2 = id := Option.some.inj hx
      refine .cons ?_ ?_
      · obtain ⟨hname, j, hj, hjn, hsc, hty, _⟩ := hpq
        refine ⟨rfl, { j with assigned := j.marked here }, ?_, hjn, hsc, hty, ?_⟩
        · rw [Table.getElem?_markAssigned, hj]
          simp [hid]
        · rw [isAssignedAlong_markAssigned hj]
          simp [hid]
      · have hmem : ∀ r ∈ ids, x ≠ r.1 := fun r hr h =>
          hnd.1 (List.mem_map.mpr ⟨r, hr, (hxp' ▸ h).symm⟩)
        clear ih hnd hx
        induction hrest with
        | nil => exact .nil
        | cons hr _ ih =>
          refine .cons (hother _ _ hr (hmem _ (List.mem_cons_self ..))) (ih fun r hr => ?_)
          exact hmem r (List.mem_cons_of_mem _ hr)

/-- An assignment marks the variable that its name means. -/
theorem Tracks.assign {t : Table} {here s id : Nat} {x : String} {Γ : Ctx} (hf : t.Formed)
    (h : Tracks t here s Γ) (hx : (t.ancestors s).findSome? (t.declared? · x) = some id) :
    Tracks (t.markAssigned id here) here s (Γ.assign x) := by
  induction h with
  | @root e he hp hids =>
    have hpar : t.parent? Table.root = none := by rw [Table.parent?, he]; exact hp
    rw [Table.ancestors_of_none hpar, List.findSome?_cons, Table.declared?, he] at hx
    simp [hids] at hx
  | @inside s p e b Γ he hp hfun hnd hrec hΓ ih =>
    have hpar : t.parent? s = some p := by rw [Table.parent?, he]; exact hp
    have hps : p < s := hf.parent_lt s p hpar
    have hdecl : t.declared? s x = e.identifiers.lookup x := by rw [Table.declared?, he]; rfl
    have he' : (t.markAssigned id here).scopes[s]? = some e := by
      rw [Table.scopes_markAssigned, he]
    rw [hf.ancestors_of_parent hpar, List.findSome?_cons, hdecl] at hx
    have hrel := lookup_records hrec x
    unfold Ctx.assign
    cases hlook : e.identifiers.lookup x with
    | none =>
      rw [hlook] at hx hrel
      have hx : (t.ancestors p).findSome? (t.declared? · x) = some id := hx
      have hb : b.lookup x = none := by
        generalize b.lookup x = known at hrel
        cases hrel
        rfl
      rw [hb]
      refine .inside he' hp hfun hnd ?_ (ih hx)
      -- The innermost block has no variable of this name, so none of its entries is meant.
      have hname : ∃ i, t.identifiers[id]? = some i ∧ i.name = x := by
        have hrel' := hΓ.findSome?_declared hf x
        rw [hx] at hrel'
        generalize Γ.find? x = known at hrel'
        cases hrel' with
        | some hr =>
          obtain ⟨i, hi, hn, _⟩ := hr
          exact ⟨i, hi, hn⟩
      obtain ⟨i, hi, hn⟩ := hname
      rw [List.lookup_eq_none_iff] at hlook
      refine List.forall₂_iff_zip.mpr ⟨hrec.length_eq, fun {p q} hpq => ?_⟩
      have hr := List.forall₂_zip hrec hpq
      refine records_markAssigned hr fun hid => ?_
      obtain ⟨_, j, hj, hjn, _⟩ := hr
      rw [hid, hi] at hj
      have hne := hlook p (List.of_mem_zip hpq).1
      rw [← hn, Option.some.inj hj, hjn] at hne
      simp at hne
    | some id' =>
      rw [hlook] at hx hrel
      have hid : id' = id := Option.some.inj hx
      subst hid
      obtain ⟨v, hv, hr⟩ : ∃ v, b.lookup x = some v ∧ Records t here s (x, id') (x, v) := by
        generalize b.lookup x = known at hrel
        cases hrel with
        | some hr => exact ⟨_, rfl, hr⟩
      obtain ⟨_, i, hi, hn, hsc, _⟩ := hr
      rw [hv, Option.isSome_some, if_pos rfl]
      refine .inside he' hp hfun hnd (records_assign hi hn hrec hnd hlook) ?_
      refine hΓ.transport hf (fun r _ e he => ⟨e, ?_, rfl, rfl, rfl⟩) fun k j hj hjs => ?_
      · rw [Table.scopes_markAssigned, he]
      · have hne : k ≠ id' := fun hk => by
          rw [hk, hi] at hj
          have hij := Option.some.inj hj
          rw [← hij, hsc] at hjs
          omega
        refine ⟨j.assigned, ?_, ?_⟩
        · rw [Table.getElem?_markAssigned, hj]
          simp [hne]
        · rw [isAssignedAlong_markAssigned hj]
          simp [hne]

/-! ### Two branches -/

/-- What both branches assigned is promoted to the block around them. -/
theorem Tracks.both {t : Table} {one two outer s : Nat} {Γ Δ : Ctx} (hf : t.Formed)
    (h₁ : t.parent? one = some outer) (h₂ : t.parent? two = some outer) (hs : s ≤ outer)
    (hΓ : Tracks t one s Γ) (hΔ : Tracks t two s Δ) :
    Tracks (t.promoteBoth one two outer) outer s (Ctx.both Γ Δ) := by
  have hlt₁ : outer < one := hf.parent_lt one outer h₁
  have hlt₂ : outer < two := hf.parent_lt two outer h₂
  have hscopes : (t.promoteBoth one two outer).scopes = t.scopes :=
    Table.scopes_markAllAssigned t _ outer
  induction hΓ generalizing Δ with
  | root he hp hids =>
    cases hΔ with
    | root => exact .root (by rw [hscopes, he]) hp hids
    | inside he' hp' =>
      rw [he] at he'
      cases he'
      rw [hp] at hp'
      cases hp'
  | @inside s p e b Γ he hp hfun hnd hrec _ ih =>
    have hps : p < s := hf.parent_lt s p (by rw [Table.parent?, he]; exact hp)
    cases hΔ with
    | root he' hp' =>
      rw [he] at he'
      cases he'
      rw [hp] at hp'
      cases hp'
    | @inside _ p' e' c Δ he' hp' _ _ hrec' hΔ =>
      rw [he] at he'
      cases he'
      rw [hp] at hp'
      cases hp'
      refine .inside (by rw [hscopes, he]) hp hfun hnd ?_ (ih (by omega) hΔ)
      clear ih hnd
      generalize e.identifiers = ids at hrec hrec'
      induction hrec generalizing c with
      | nil => cases hrec'; exact .nil
      | @cons q r ids b hqr _ ih =>
        cases hrec' with
        | @cons _ r' _ c hqr' hrest' =>
          refine .cons ?_ (ih hrest')
          obtain ⟨hname, i, hi, hn, hsc, hty, ha⟩ := hqr
          obtain ⟨_, _, _, _, _, _, ha'⟩ := hqr'
          obtain ⟨a, hi', _⟩ := (Table.kept_markAllAssigned t ((t.assignedIn one).filter
            ((t.assignedIn two).contains ·)) outer).identifier q.2 i hi
          refine ⟨hname, _, hi', hn, hsc, hty, ?_⟩
          unfold Table.promoteBoth
          rw [isAssignedAlong_markAllAssigned hi]
          rw [isAssignedAlong_inner hf h₁ hi (by omega)] at ha
          rw [isAssignedAlong_inner hf h₂ hi (by omega)] at ha'
          have hboth : ((t.assignedIn one).filter ((t.assignedIn two).contains ·)).contains q.2 =
              (Table.namesBlock i one && Table.namesBlock i two) := by
            rw [← contains_assignedIn hf hi, ← contains_assignedIn hf hi, Bool.eq_iff_iff]
            simp
          show _ = (r.2.assigned && r'.2.assigned)
          rw [hboth, ← ha, ← ha', Bool.or_and_distrib_left]

end Quill.Typing
