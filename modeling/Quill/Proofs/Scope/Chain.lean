import Mathlib.Data.List.Forall2
import Quill.Scope.Assigned

/-! # How symbol tables grow

`Formed` says that the numbers of a table point where they should: a scope has a larger number than
its parent, an identifier is found under its own number, and records of assignment name scopes that
exist.  Every operation of a table keeps this.

`Kept n t t'` says what the scopes below `n` still see after the table `t` has become `t'`: the same
declarations and, as far as blocks below `n` are concerned, the same records of assignment.  Work
inside a scope keeps everything below it, which is why a block can be checked on its own. -/

namespace Quill.Scope

/-- As far as blocks below `n` are concerned, two records are the same. -/
def Assigned.SameBelow (n : Nat) (a a' : Assigned) : Prop :=
  (a' = .everywhere ↔ a = .everywhere) ∧ ∀ b < n, a'.covers b = a.covers b

theorem Assigned.SameBelow.refl (n : Nat) (a : Assigned) : Assigned.SameBelow n a a :=
  ⟨Iff.rfl, fun _ _ => rfl⟩

theorem Assigned.SameBelow.trans {n : Nat} {a b c : Assigned} (h : Assigned.SameBelow n a b)
    (h' : Assigned.SameBelow n b c) : Assigned.SameBelow n a c :=
  ⟨h'.1.trans h.1, fun k hk => (h'.2 k hk).trans (h.2 k hk)⟩

namespace Table

/-- Numbers point where they should. -/
structure Formed (t : Table) : Prop where
  parent_lt : ∀ s p, t.parent? s = some p → p < s
  id_eq : ∀ (k : Nat) i, t.identifiers[k]? = some i → i.id = k
  scope_lt : ∀ (k : Nat) i, t.identifiers[k]? = some i → i.scope < t.scopes.size
  blocks_lt : ∀ (k : Nat) i bs b, t.identifiers[k]? = some i → i.assigned = .inBlocks bs → b ∈ bs →
    b < t.scopes.size

/-- What the scopes below a number still see of a table. -/
structure Kept (n : Nat) (t t' : Table) : Prop where
  size_le : t.scopes.size ≤ t'.scopes.size
  parent? : ∀ s < t.scopes.size, t'.parent? s = t.parent? s
  functions : t'.functions = t.functions
  scope : ∀ s < n, ∀ e, t.scopes[s]? = some e → ∃ e', t'.scopes[s]? = some e' ∧
    e'.parent = e.parent ∧ e'.identifiers = e.identifiers ∧ e'.functions = e.functions
  identifier : ∀ (k : Nat) i, t.identifiers[k]? = some i → ∃ a,
    t'.identifiers[k]? = some { i with assigned := a } ∧
      (i.scope < n → Assigned.SameBelow n i.assigned a)

/-! ### The way to the root -/

theorem ancestorsUpTo_congr {t t' : Table} {n : Nat}
    (hlt : ∀ s p, t.parent? s = some p → p < s)
    (heq : ∀ s < n, t'.parent? s = t.parent? s) :
    ∀ {fuel fuel' s : Nat}, s < n → s < fuel → s < fuel' →
      t'.ancestorsUpTo fuel' s = t.ancestorsUpTo fuel s
  | 0, _, _, _, h, _ => absurd h (by omega)
  | _, 0, _, _, _, h => absurd h (by omega)
  | fuel + 1, fuel' + 1, s, hn, hf, hf' => by
    unfold ancestorsUpTo
    rw [heq s hn]
    cases hp : t.parent? s with
    | none => rfl
    | some p =>
      have hps : p < s := hlt s p hp
      exact congrArg (s :: ·) (ancestorsUpTo_congr hlt heq (by omega) (by omega) (by omega))

theorem ancestors_of_none {t : Table} {s : Nat} (hp : t.parent? s = none) :
    t.ancestors s = [s] := by
  unfold ancestors
  rw [ancestorsUpTo, hp]

namespace Formed

variable {t : Table} (h : t.Formed)
include h

theorem ancestors_of_parent {s p : Nat} (hp : t.parent? s = some p) :
    t.ancestors s = s :: t.ancestors p := by
  have hps : p < s := h.parent_lt s p hp
  unfold ancestors
  rw [ancestorsUpTo, hp]
  exact congrArg (s :: ·) (ancestorsUpTo_congr h.parent_lt (fun _ _ => rfl) hps (by omega) hps)

/-- Below a number under which nothing changes the ways to the root stay the same. -/
theorem ancestors_congr {t' : Table} {n s : Nat} (heq : ∀ r < n, t'.parent? r = t.parent? r)
    (hs : s < n) : t'.ancestors s = t.ancestors s :=
  ancestorsUpTo_congr h.parent_lt heq hs (by omega) (by omega)

theorem le_of_mem_ancestorsUpTo {a : Nat} :
    ∀ {fuel s : Nat}, a ∈ t.ancestorsUpTo fuel s → a ≤ s
  | 0, _, ha => by simp [ancestorsUpTo] at ha
  | fuel + 1, s, ha => by
    unfold ancestorsUpTo at ha
    rcases List.mem_cons.mp ha with rfl | ha
    · exact Nat.le_refl _
    · cases hp : t.parent? s with
      | none => rw [hp] at ha; cases ha
      | some p =>
        rw [hp] at ha
        exact Nat.le_trans (le_of_mem_ancestorsUpTo ha) (Nat.le_of_lt (h.parent_lt s p hp))

theorem le_of_mem_ancestors {a s : Nat} (ha : a ∈ t.ancestors s) : a ≤ s :=
  h.le_of_mem_ancestorsUpTo ha

end Formed

/-! ### What is kept -/

namespace Kept

theorem refl (n : Nat) (t : Table) : Kept n t t where
  size_le := Nat.le_refl _
  parent? _ _ := rfl
  functions := rfl
  scope _ _ e he := ⟨e, he, rfl, rfl, rfl⟩
  identifier _ i hi := ⟨i.assigned, hi, fun _ => Assigned.SameBelow.refl n _⟩

theorem trans {n : Nat} {t t' t'' : Table} (h : Kept n t t') (h' : Kept n t' t'') :
    Kept n t t'' where
  size_le := Nat.le_trans h.size_le h'.size_le
  parent? s hs := by
    have hs' : s < t'.scopes.size := Nat.lt_of_lt_of_le hs h.size_le
    exact (h'.parent? s hs').trans (h.parent? s hs)
  functions := h'.functions.trans h.functions
  scope s hs e he := by
    obtain ⟨e', he', hp, hi, hf⟩ := h.scope s hs e he
    obtain ⟨e'', he'', hp', hi', hf'⟩ := h'.scope s hs e' he'
    exact ⟨e'', he'', hp'.trans hp, hi'.trans hi, hf'.trans hf⟩
  identifier k i hi := by
    obtain ⟨a, ha, hs⟩ := h.identifier k i hi
    obtain ⟨a', ha', hs'⟩ := h'.identifier k _ ha
    exact ⟨a', ha', fun hn => (hs hn).trans (hs' hn)⟩

theorem mono {m n : Nat} {t t' : Table} (h : Kept n t t') (hm : m ≤ n) : Kept m t t' where
  size_le := h.size_le
  parent? := h.parent?
  functions := h.functions
  scope s hs := h.scope s (by omega)
  identifier k i hi := by
    obtain ⟨a, ha, hs⟩ := h.identifier k i hi
    refine ⟨a, ha, fun hn => ?_⟩
    obtain ⟨he, hc⟩ := hs (by omega)
    exact ⟨he, fun b hb => hc b (by omega)⟩

end Kept

/-! ### New scopes and identifiers -/

theorem snd_child (t : Table) (p : Nat) : (t.child p).2 = t.scopes.size := rfl

theorem size_scopes_child (t : Table) (p : Nat) : (t.child p).1.scopes.size = t.scopes.size + 1 := by
  simp [child]

theorem getElem?_scopes_child (t : Table) (p s : Nat) :
    (t.child p).1.scopes[s]? =
      if s = t.scopes.size then some (.fresh (some p) (t.level p + 1))
      else if p = s then t.scopes[s]?.map fun e => { e with children := e.children.push t.scopes.size }
      else t.scopes[s]? := by
  simp only [child]
  rw [Array.getElem?_push, Array.size_modify, Array.getElem?_modify]

theorem kept_child (t : Table) (p : Nat) : Kept t.scopes.size t (t.child p).1 where
  size_le := by rw [size_scopes_child]; omega
  parent? s hs := by
    unfold Table.parent?
    rw [getElem?_scopes_child, if_neg (by omega)]
    split
    · cases t.scopes[s]? <;> rfl
    · rfl
  functions := rfl
  scope s hs e he := by
    rw [getElem?_scopes_child, if_neg (by omega), he]
    split
    · exact ⟨_, rfl, rfl, rfl, rfl⟩
    · exact ⟨_, rfl, rfl, rfl, rfl⟩
  identifier k i hi := ⟨i.assigned, hi, fun _ => Assigned.SameBelow.refl _ _⟩

theorem parent?_child_new (t : Table) (p : Nat) :
    (t.child p).1.parent? t.scopes.size = some p := by
  unfold parent?
  rw [getElem?_scopes_child, if_pos rfl]
  rfl

theorem Formed.child {t : Table} (h : t.Formed) {p : Nat} (hp : p < t.scopes.size) :
    (t.child p).1.Formed where
  parent_lt s q hq := by
    rcases Nat.lt_trichotomy s t.scopes.size with hs | rfl | hs
    · rw [(kept_child t p).parent? s hs] at hq
      exact h.parent_lt s q hq
    · rw [parent?_child_new] at hq
      cases hq
      exact hp
    · have hnone : (t.child p).1.scopes[s]? = none := by
        rw [Array.getElem?_eq_none_iff, size_scopes_child]
        omega
      rw [Table.parent?, hnone] at hq
      cases hq
  id_eq := h.id_eq
  scope_lt k i hi := by
    rw [size_scopes_child]
    exact Nat.lt_succ_of_lt (h.scope_lt k i hi)
  blocks_lt k i bs b hi hb hmem := by
    rw [size_scopes_child]
    exact Nat.lt_succ_of_lt (h.blocks_lt k i bs b hi hb hmem)

/-- What a successful declaration adds: a name of the scope, and an identifier that is not yet
assigned. -/
theorem declareIdentifier?_eq_some {t t' : Table} {scope id : Nat} {x : String} {ty : Ty}
    (hd : t.declareIdentifier? scope x ty = some (t', id)) :
    t.declared? scope x = none ∧ id = t.identifiers.size ∧
      t' = { t with
        identifiers := t.identifiers.push
          { id, name := x, ty, level := t.level scope, scope, assigned := .inBlocks #[] }
        scopes := t.scopes.modify scope fun e =>
          { e with identifiers := (x, id) :: e.identifiers } } := by
  unfold declareIdentifier? at hd
  split at hd
  · cases hd
  · next hnone =>
    obtain ⟨rfl, rfl⟩ := Prod.mk.inj (Option.some.inj hd)
    exact ⟨hnone, rfl, rfl⟩

theorem parent?_declareIdentifier {t t' : Table} {scope id : Nat} {x : String} {ty : Ty}
    (hd : t.declareIdentifier? scope x ty = some (t', id)) (s : Nat) :
    t'.parent? s = t.parent? s := by
  obtain ⟨_, rfl, rfl⟩ := declareIdentifier?_eq_some hd
  unfold parent?
  rw [Array.getElem?_modify]
  split
  · cases t.scopes[s]? <;> rfl
  · rfl

theorem kept_declareIdentifier {t t' : Table} {scope id : Nat} {x : String} {ty : Ty}
    (hd : t.declareIdentifier? scope x ty = some (t', id)) : Kept scope t t' := by
  have hparent := parent?_declareIdentifier hd
  obtain ⟨_, rfl, rfl⟩ := declareIdentifier?_eq_some hd
  refine ⟨by simp, fun s _ => hparent s, rfl, fun s hs e he => ?_, fun k i hi => ?_⟩
  · refine ⟨e, ?_, rfl, rfl, rfl⟩
    rw [Array.getElem?_modify, if_neg (by omega), he]
  · refine ⟨i.assigned, ?_, fun _ => Assigned.SameBelow.refl _ _⟩
    have hk : k < t.identifiers.size := (Array.getElem?_eq_some_iff.mp hi).1
    rw [Array.getElem?_push, if_neg (by omega), hi]

theorem Formed.declareIdentifier {t t' : Table} {scope id : Nat} {x : String} {ty : Ty}
    (h : t.Formed) (hs : scope < t.scopes.size)
    (hd : t.declareIdentifier? scope x ty = some (t', id)) : t'.Formed := by
  have hparent := parent?_declareIdentifier hd
  obtain ⟨_, rfl, rfl⟩ := declareIdentifier?_eq_some hd
  refine ⟨fun s p hp => h.parent_lt s p (hparent s ▸ hp), fun k i hi => ?_, fun k i hi => ?_,
    fun k i bs b hi hb hmem => ?_⟩
  · rw [Array.getElem?_push] at hi
    split at hi
    · next hk => cases hi; exact hk.symm
    · exact h.id_eq k i hi
  · rw [Array.getElem?_push] at hi
    rw [Array.size_modify]
    split at hi
    · cases hi; exact hs
    · exact h.scope_lt k i hi
  · rw [Array.getElem?_push] at hi
    rw [Array.size_modify]
    split at hi
    · cases hi
      cases hb
      exact absurd hmem (by simp)
    · exact h.blocks_lt k i bs b hi hb hmem

/-! ### Records of assignment -/

end Table

/-- The record of an identifier after an assignment in a block. -/
def Identifier.marked (i : Identifier) (block : Nat) : Assigned :=
  if i.scope = block then .everywhere
  else match i.assigned with
    | .everywhere => .everywhere
    | .inBlocks blocks => .inBlocks (if blocks.contains block then blocks else blocks.push block)

namespace Identifier

theorem marked_eq_everywhere_iff (i : Identifier) (block : Nat) :
    i.marked block = .everywhere ↔ i.scope = block ∨ i.assigned = .everywhere := by
  unfold marked
  split
  · simp [*]
  · cases h : i.assigned <;> simp [*]

theorem covers_marked (i : Identifier) (block b : Nat) :
    (i.marked block).covers b = (decide (i.scope = block) || i.assigned.covers b || b == block) := by
  unfold marked
  split
  · simp [Assigned.covers, *]
  · next hne =>
    cases h : i.assigned with
    | everywhere => simp [Assigned.covers]
    | inBlocks blocks =>
      by_cases hc : block ∈ blocks
      · by_cases hb : b = block
        · simp [Assigned.covers, hne, hc, hb]
        · simp [Assigned.covers, hne, hc, hb]
      · by_cases hb : b = block
        · simp [Assigned.covers, hne, hc, hb]
        · simp [Assigned.covers, hne, hc, hb]

theorem mem_marked {i : Identifier} {block b : Nat} {bs : Array Nat}
    (h : i.marked block = .inBlocks bs) (hb : b ∈ bs) :
    b = block ∨ ∃ bs', i.assigned = .inBlocks bs' ∧ b ∈ bs' := by
  unfold marked at h
  split at h
  · cases h
  · cases ha : i.assigned with
    | everywhere => rw [ha] at h; cases h
    | inBlocks blocks =>
      rw [ha] at h
      dsimp only at h
      split at h
      · cases h
        exact .inr ⟨_, rfl, hb⟩
      · cases h
        rcases Array.mem_push.mp hb with hb | rfl
        · exact .inr ⟨_, rfl, hb⟩
        · exact .inl rfl

/-- An assignment in a block says nothing new to the blocks below it. -/
theorem sameBelow_marked {i : Identifier} {n block : Nat} (hi : i.scope < n) (hn : n ≤ block) :
    Assigned.SameBelow n i.assigned (i.marked block) := by
  refine ⟨?_, fun b hb => ?_⟩
  · rw [marked_eq_everywhere_iff]
    exact ⟨fun h => h.resolve_left (by omega), .inr⟩
  · rw [covers_marked]
    have h₁ : i.scope ≠ block := by omega
    have h₂ : b ≠ block := by omega
    simp [h₁, h₂]

end Identifier

namespace Table

theorem scopes_markAssigned (t : Table) (id block : Nat) :
    (t.markAssigned id block).scopes = t.scopes := by
  unfold markAssigned
  split <;> rfl

theorem functions_markAssigned (t : Table) (id block : Nat) :
    (t.markAssigned id block).functions = t.functions := by
  unfold markAssigned
  split <;> rfl

theorem getElem?_markAssigned (t : Table) (id block k : Nat) :
    (t.markAssigned id block).identifiers[k]? = t.identifiers[k]?.map fun i =>
      if k = id then { i with assigned := i.marked block } else i := by
  unfold markAssigned
  split
  · next hs =>
    simp only [markEverywhere, Array.getElem?_modify]
    by_cases hk : k = id
    · subst hk
      cases hi : t.identifiers[k]? with
      | none => simp
      | some i =>
        rw [hi] at hs
        have heq : i.scope = block := Option.some.inj hs
        simp [Identifier.marked, heq]
    · rw [if_neg (fun h => hk h.symm)]
      simp [hk]
  · next hs =>
    simp only [markInBlock, Array.getElem?_modify]
    by_cases hk : k = id
    · subst hk
      cases hi : t.identifiers[k]? with
      | none => simp
      | some i =>
        rw [hi] at hs
        have hne : i.scope ≠ block := fun h => hs (congrArg some h)
        cases ha : i.assigned <;> simp [Identifier.marked, hne, ha]
    · rw [if_neg (fun h => hk h.symm)]
      simp [hk]

theorem kept_markAssigned (t : Table) (id block : Nat) : Kept block t (t.markAssigned id block) where
  size_le := Nat.le_of_eq (by rw [scopes_markAssigned])
  parent? s _ := by rw [Table.parent?, scopes_markAssigned, Table.parent?]
  functions := functions_markAssigned t id block
  scope s _ e he := ⟨e, by rw [scopes_markAssigned, he], rfl, rfl, rfl⟩
  identifier k i hi := by
    rw [getElem?_markAssigned, hi]
    by_cases hk : k = id
    · refine ⟨i.marked block, by simp [hk], fun hn => ?_⟩
      exact Identifier.sameBelow_marked hn (Nat.le_refl _)
    · exact ⟨i.assigned, by simp [hk], fun _ => Assigned.SameBelow.refl _ _⟩

theorem Formed.markAssigned {t : Table} (h : t.Formed) {id block : Nat}
    (hb : block < t.scopes.size) : (t.markAssigned id block).Formed := by
  have hget : ∀ (k : Nat) (i : Identifier), (t.markAssigned id block).identifiers[k]? = some i →
      ∃ i₀ : Identifier, t.identifiers[k]? = some i₀ ∧ i.id = i₀.id ∧ i.scope = i₀.scope ∧
        (i.assigned = i₀.assigned ∨ i.assigned = i₀.marked block) := by
    intro k i hi
    rw [getElem?_markAssigned] at hi
    obtain ⟨i₀, hi₀, rfl⟩ := Option.map_eq_some_iff.mp hi
    refine ⟨i₀, hi₀, ?_⟩
    split
    · exact ⟨rfl, rfl, .inr rfl⟩
    · exact ⟨rfl, rfl, .inl rfl⟩
  refine ⟨fun s p hp => ?_, fun k i hi => ?_, fun k i hi => ?_, fun k i bs b hi ha hmem => ?_⟩
  · rw [Table.parent?, scopes_markAssigned] at hp
    exact h.parent_lt s p hp
  · obtain ⟨i₀, hi₀, hid, _⟩ := hget k i hi
    exact hid.trans (h.id_eq k i₀ hi₀)
  · obtain ⟨i₀, hi₀, _, hsc, _⟩ := hget k i hi
    rw [scopes_markAssigned, hsc]
    exact h.scope_lt k i₀ hi₀
  · obtain ⟨i₀, hi₀, _, _, hold | hnew⟩ := hget k i hi
    · rw [scopes_markAssigned]
      exact h.blocks_lt k i₀ bs b hi₀ (hold ▸ ha) hmem
    · rw [scopes_markAssigned]
      rcases Identifier.mem_marked (hnew.symm.trans ha) hmem with rfl | ⟨bs', ha', hb'⟩
      · exact hb
      · exact h.blocks_lt k i₀ bs' b hi₀ ha' hb'

theorem scopes_markAllAssigned (t : Table) (ids : List Nat) (block : Nat) :
    (t.markAllAssigned ids block).scopes = t.scopes := by
  unfold markAllAssigned
  induction ids generalizing t with
  | nil => rfl
  | cons id ids ih => rw [List.foldl_cons, ih, scopes_markAssigned]

theorem kept_markAllAssigned (t : Table) (ids : List Nat) (block : Nat) :
    Kept block t (t.markAllAssigned ids block) := by
  unfold markAllAssigned
  induction ids generalizing t with
  | nil => exact Kept.refl block t
  | cons id ids ih => exact (kept_markAssigned t id block).trans (ih (t.markAssigned id block))

theorem Formed.markAllAssigned {t : Table} (h : t.Formed) (ids : List Nat) {block : Nat}
    (hb : block < t.scopes.size) : (t.markAllAssigned ids block).Formed := by
  unfold Table.markAllAssigned
  induction ids generalizing t with
  | nil => exact h
  | cons id ids ih => exact ih (h.markAssigned hb) (by rw [scopes_markAssigned]; exact hb)

end Table

end Quill.Scope
