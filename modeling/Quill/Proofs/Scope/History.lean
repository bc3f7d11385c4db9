import Mathlib.Logic.Relation
import Quill.Proofs.Scope.Declaring

/-! # Assignment as a matter of history

What a table says of an identifier's assignment is determined by the requests that have made the
table.  `Request.AssignsEverywhere` and `Request.AssignsIn` say which requests assign an identifier,
`Noted` what one request changes in its record, and `Recorded` that the record at the end tells
exactly which such requests there were.

* A request never takes a record back (`Grows`), so what is assigned stays assigned.
* The records are all that assignments change (`unmarked`): scopes, declarations and their numbers
  are those of the other requests alone.
* The search along the way to the root ends with the declaring scope, so a block profits from the
  assignments in those scopes around it that do not lie around the declaring scope (`Encloses`). -/

namespace Quill.Scope.Table

/-! ### Sequences of requests -/

/-- The request is the record of an assignment. -/
def Request.isMark : Request → Bool
  | .markEverywhere _ | .markInBlock _ _ | .markAssigned _ _ => true
  | .child _ | .identifier _ _ _ | .function _ _ _ _ => false

/-- The request records that the identifier, of scope `d`, is assigned everywhere. -/
def Request.AssignsEverywhere (r : Request) (k d : Nat) : Prop :=
  r = .markEverywhere k ∨ r = .markAssigned k d

/-- The request records an assignment of the identifier in a block. -/
def Request.AssignsIn (r : Request) (k block : Nat) : Prop :=
  r = .markAssigned k block ∨ r = .markInBlock k block

/-- The table has the scopes and identifiers that a request works on.  The block of an assignment
is only noted down, and need not exist. -/
def admits (t : Table) : Request → Bool
  | .child scope | .identifier scope _ _ | .function scope _ _ _ => scope < t.scopes.size
  | .markEverywhere id | .markInBlock id _ | .markAssigned id _ => id < t.identifiers.size

/-- The table after requests, one after the other. -/
def afterEach (t : Table) (rs : List Request) : Table := rs.foldl after t

/-- Each of the requests finds the scopes and identifiers that it works on. -/
def admitsEach (t : Table) : List Request → Bool
  | [] => true
  | r :: rs => t.admits r && (t.after r).admitsEach rs

theorem afterEach_append (t : Table) (rs rs' : List Request) :
    t.afterEach (rs ++ rs') = (t.afterEach rs).afterEach rs' :=
  List.foldl_append

theorem admitsEach_append (t : Table) (rs rs' : List Request) :
    t.admitsEach (rs ++ rs') = (t.admitsEach rs && (t.afterEach rs).admitsEach rs') := by
  induction rs generalizing t with
  | nil => rfl
  | cons r rs ih =>
    rw [List.cons_append, admitsEach, ih, admitsEach, Bool.and_assoc]
    rfl

/-- What each admitted request keeps, all of them together keep. -/
theorem afterEach_invariant {P : Table → Prop}
    (hstep : ∀ t r, P t → t.admits r = true → P (t.after r)) {t : Table} (ht : P t)
    {rs : List Request} (h : t.admitsEach rs = true) : P (t.afterEach rs) := by
  induction rs generalizing t with
  | nil => exact ht
  | cons r rs ih =>
    rw [admitsEach, Bool.and_eq_true] at h
    exact ih (hstep t r ht h.1) h.2

theorem Tree.after {t : Table} (h : t.Tree) {r : Request} (hr : t.admits r = true) :
    (t.after r).Tree := by
  cases r with
  | child parent => exact h.child (of_decide_eq_true hr)
  | identifier scope name ty =>
    rw [Table.after]
    cases hd : t.declareIdentifier? scope name ty with
    | none => exact h
    | some _ => exact h.declareIdentifier hd
  | function scope name returnType arguments =>
    rw [Table.after]
    cases hd : t.declareFunction? scope name returnType arguments with
    | none => exact h
    | some _ => exact h.declareFunction hd
  | markEverywhere id => exact h.of_scopes rfl
  | markInBlock id block => exact h.of_scopes rfl
  | markAssigned id block => exact h.of_scopes (scopes_markAssigned t id block)

theorem Tree.afterEach {t : Table} (h : t.Tree) {rs : List Request}
    (hrs : t.admitsEach rs = true) : (t.afterEach rs).Tree :=
  afterEach_invariant (fun _ _ ht hr => ht.after hr) h hrs

/-! ### One request -/

/-- What a request leaves of an identifier: only the record of its assignments may change, and it
says of every block what it said before or what the request adds. -/
structure Noted (r : Request) (k : Nat) (i i' : Identifier) : Prop where
  scope : i'.scope = i.scope
  everywhere : i'.assigned = .everywhere ↔ i.assigned = .everywhere ∨ r.AssignsEverywhere k i.scope
  covers : ∀ b, i'.assigned.covers b = true ↔
    i.assigned.covers b = true ∨ r.AssignsEverywhere k i.scope ∨ r.AssignsIn k b

section

variable {t : Table} {r : Request} {k : Nat} {i : Identifier}

/-- A request that is no assignment of the identifier leaves its record alone. -/
theorem Noted.refl (heverywhere : ∀ d, ¬ r.AssignsEverywhere k d)
    (hin : ∀ b, ¬ r.AssignsIn k b) (i : Identifier) : Noted r k i i where
  scope := rfl
  everywhere := by simp [heverywhere]
  covers b := by simp [heverywhere, hin]

/-- The record of an identifier with one more block. -/
def withBlock (a : Assigned) (block : Nat) : Assigned :=
  match a with
  | .everywhere => .everywhere
  | .inBlocks blocks => .inBlocks (if blocks.contains block then blocks else blocks.push block)

theorem withBlock_eq_everywhere_iff (a : Assigned) (block : Nat) :
    withBlock a block = .everywhere ↔ a = .everywhere := by
  cases a <;> simp [withBlock]

theorem covers_withBlock (a : Assigned) (block b : Nat) :
    (withBlock a block).covers b = true ↔ a.covers b = true ∨ b = block := by
  cases a with
  | everywhere => simp [withBlock, Assigned.covers]
  | inBlocks blocks =>
    by_cases hc : block ∈ blocks
    · by_cases hb : b = block
      · simp [withBlock, Assigned.covers, hc, hb]
      · simp [withBlock, Assigned.covers, hc, hb]
    · simp [withBlock, Assigned.covers, hc]

theorem identifiers_markInBlock (t : Table) (id block : Nat) :
    (t.markInBlock id block).identifiers =
      t.identifiers.modify id fun i => { i with assigned := withBlock i.assigned block } := rfl

theorem noted_markEverywhere (hi : t.identifiers[k]? = some i) (id : Nat) :
    ∃ i', (t.markEverywhere id).identifiers[k]? = some i' ∧ Noted (.markEverywhere id) k i i' := by
  unfold markEverywhere
  dsimp only
  rw [Array.getElem?_modify]
  by_cases hk : id = k
  · subst hk
    rw [if_pos rfl, hi]
    refine ⟨_, rfl, rfl, ?_, fun b => ?_⟩
    · simp [Request.AssignsEverywhere]
    · simp [Request.AssignsEverywhere, Assigned.covers]
  · rw [if_neg hk]
    refine ⟨i, hi, .refl ?_ ?_ i⟩
    · simp [Request.AssignsEverywhere, hk]
    · simp [Request.AssignsIn]

theorem noted_markInBlock (hi : t.identifiers[k]? = some i) (id block : Nat) :
    ∃ i', (t.markInBlock id block).identifiers[k]? = some i' ∧
      Noted (.markInBlock id block) k i i' := by
  rw [identifiers_markInBlock, Array.getElem?_modify]
  by_cases hk : id = k
  · subst hk
    rw [if_pos rfl, hi]
    refine ⟨_, rfl, rfl, ?_, fun b => ?_⟩
    · simp [withBlock_eq_everywhere_iff, Request.AssignsEverywhere]
    · rw [covers_withBlock, eq_comm (a := b)]
      simp [Request.AssignsEverywhere, Request.AssignsIn]
  · rw [if_neg hk]
    refine ⟨i, hi, .refl ?_ ?_ i⟩
    · simp [Request.AssignsEverywhere]
    · simp [Request.AssignsIn, hk]

theorem noted_markAssigned (hi : t.identifiers[k]? = some i) (id block : Nat) :
    ∃ i', (t.markAssigned id block).identifiers[k]? = some i' ∧
      Noted (.markAssigned id block) k i i' := by
  rw [getElem?_markAssigned, hi]
  by_cases hk : k = id
  · subst hk
    refine ⟨{ i with assigned := i.marked block }, by simp, rfl, ?_, fun b => ?_⟩
    · rw [Identifier.marked_eq_everywhere_iff]
      simp [Request.AssignsEverywhere, or_comm, eq_comm]
    · rw [Identifier.covers_marked]
      simp only [Request.AssignsEverywhere, Request.AssignsIn, Bool.or_eq_true, decide_eq_true_eq,
        beq_iff_eq, reduceCtorEq, false_or, or_false, Request.markAssigned.injEq, true_and]
      rw [or_comm (a := i.scope = block), or_assoc, eq_comm (a := b), eq_comm (a := i.scope)]
  · have hid : id ≠ k := fun heq => hk heq.symm
    refine ⟨i, by simp [hk], .refl ?_ ?_ i⟩
    · simp [Request.AssignsEverywhere, hid]
    · simp [Request.AssignsIn, hid]

/-- **What a request does to an identifier** that the table has. -/
theorem noted_after (hi : t.identifiers[k]? = some i) (r : Request) :
    ∃ i', (t.after r).identifiers[k]? = some i' ∧ Noted r k i i' := by
  have hsame : ∀ r : Request, r.isMark = false → Noted r k i i := by
    intro r hr
    refine .refl ?_ ?_ i <;> rintro _ (rfl | rfl) <;> cases hr
  cases r with
  | child parent => exact ⟨i, hi, hsame _ rfl⟩
  | identifier scope name ty =>
    refine ⟨i, ?_, hsame _ rfl⟩
    rw [after]
    cases hd : t.declareIdentifier? scope name ty with
    | none => exact hi
    | some result =>
      obtain ⟨t', id⟩ := result
      obtain ⟨-, -, rfl⟩ := declareIdentifier?_eq_some hd
      have hk : k < t.identifiers.size := (Array.getElem?_eq_some_iff.mp hi).1
      show (t.identifiers.push _)[k]? = some i
      rw [Array.getElem?_push, if_neg (Nat.ne_of_lt hk), hi]
  | function scope name returnType arguments =>
    refine ⟨i, ?_, hsame _ rfl⟩
    rw [after]
    cases hd : t.declareFunction? scope name returnType arguments with
    | none => exact hi
    | some result =>
      obtain ⟨t', id⟩ := result
      obtain ⟨-, -, -, rfl⟩ := declareFunction?_eq_some hd
      exact hi
  | markEverywhere id => exact noted_markEverywhere hi id
  | markInBlock id block => exact noted_markInBlock hi id block
  | markAssigned id block => exact noted_markAssigned hi id block

/-- An identifier that was not there before a request is not assigned after it. -/
theorem assigned_of_new {i' : Identifier} (hk : t.identifiers[k]? = none)
    (hi' : (t.after r).identifiers[k]? = some i') : i'.assigned = .inBlocks #[] := by
  cases r with
  | child parent => cases hk.symm.trans hi'
  | identifier scope name ty =>
    rw [after] at hi'
    cases hd : t.declareIdentifier? scope name ty with
    | none =>
      rw [hd] at hi'
      cases hk.symm.trans hi'
    | some result =>
      obtain ⟨t', id⟩ := result
      obtain ⟨-, -, rfl⟩ := declareIdentifier?_eq_some hd
      rw [hd] at hi'
      change (t.identifiers.push _)[k]? = some i' at hi'
      rw [Array.getElem?_push, hk] at hi'
      split at hi'
      · cases hi'
        rfl
      · cases hi'
  | function scope name returnType arguments =>
    rw [after] at hi'
    cases hd : t.declareFunction? scope name returnType arguments with
    | none =>
      rw [hd] at hi'
      cases hk.symm.trans hi'
    | some result =>
      obtain ⟨t', id⟩ := result
      obtain ⟨-, -, -, rfl⟩ := declareFunction?_eq_some hd
      rw [hd] at hi'
      cases hk.symm.trans hi'
  | markEverywhere id =>
    change (t.identifiers.modify id _)[k]? = some i' at hi'
    rw [Array.getElem?_modify, hk] at hi'
    simp at hi'
  | markInBlock id block =>
    change (t.identifiers.modify id _)[k]? = some i' at hi'
    rw [Array.getElem?_modify, hk] at hi'
    simp at hi'
  | markAssigned id block =>
    rw [after, getElem?_markAssigned, hk] at hi'
    cases hi'

/-- Only an identifier of the table is assigned by a request that the table admits. -/
theorem lt_of_admits (hr : t.admits r = true)
    (h : (∃ d, r.AssignsEverywhere k d) ∨ ∃ b, r.AssignsIn k b) : k < t.identifiers.size := by
  rcases h with ⟨_, rfl | rfl⟩ | ⟨_, rfl | rfl⟩
  all_goals exact of_decide_eq_true hr

end

/-! ### Records and their requests -/

/-- The records of a table tell which assignments were among the requests; those were all of
identifiers that the table has. -/
structure Recorded (t : Table) (rs : List Request) : Prop where
  known : ∀ r ∈ rs, ∀ k, (∃ d, r.AssignsEverywhere k d) ∨ (∃ b, r.AssignsIn k b) →
    k < t.identifiers.size
  everywhere : ∀ (k : Nat) i, t.identifiers[k]? = some i →
    (i.assigned = .everywhere ↔ ∃ r ∈ rs, r.AssignsEverywhere k i.scope)
  covers : ∀ (k : Nat) i, t.identifiers[k]? = some i → ∀ b, (i.assigned.covers b = true ↔
    ∃ r ∈ rs, r.AssignsEverywhere k i.scope ∨ r.AssignsIn k b)

theorem recorded_initial : Recorded initial [] := by
  have hnone : ∀ k : Nat, initial.identifiers[k]? = none := fun _ => rfl
  refine ⟨by simp, fun k i hi => ?_, fun k i hi => ?_⟩
  all_goals
    rw [hnone] at hi
    cases hi

theorem size_identifiers_le_after (t : Table) (r : Request) :
    t.identifiers.size ≤ (t.after r).identifiers.size := by
  refine Nat.le_of_not_lt fun hlt => ?_
  obtain ⟨i', hi', -⟩ := noted_after (Array.getElem?_eq_getElem hlt) r
  rw [Array.getElem?_eq_none (Nat.le_refl _)] at hi'
  cases hi'

/-- Every request that assigns an identifier finds it in the table of that moment. -/
theorem Recorded.known_after {t : Table} {done : List Request} (h : t.Recorded done) {r : Request}
    (hr : t.admits r = true) {q : Request} (hq : q ∈ done ++ [r]) {k : Nat}
    (hk : (∃ d, q.AssignsEverywhere k d) ∨ ∃ b, q.AssignsIn k b) : k < t.identifiers.size := by
  rcases List.mem_append.mp hq with hq | hq
  · exact h.known q hq k hk
  · rw [List.mem_singleton.mp hq] at hk
    exact lt_of_admits hr hk

/-- An identifier of the table after a request is an old one, or it is new and no request speaks of
it. -/
theorem Recorded.old_or_new {t : Table} {done : List Request} (h : t.Recorded done) {r : Request}
    (hr : t.admits r = true) {k : Nat} {i' : Identifier}
    (hi' : (t.after r).identifiers[k]? = some i') :
    (∃ i, t.identifiers[k]? = some i ∧ Noted r k i i') ∨
      i'.assigned = .inBlocks #[] ∧ ∀ q ∈ done ++ [r],
        (∀ d, ¬ q.AssignsEverywhere k d) ∧ ∀ b, ¬ q.AssignsIn k b := by
  cases hi : t.identifiers[k]? with
  | some i =>
    obtain ⟨i'', hi'', hnoted⟩ := noted_after hi r
    cases hi''.symm.trans hi'
    exact .inl ⟨i, rfl, hnoted⟩
  | none =>
    have hk : ¬ k < t.identifiers.size := Nat.not_lt.mpr (Array.getElem?_eq_none_iff.mp hi)
    refine .inr ⟨assigned_of_new hi hi', fun q hq => ⟨fun d hd => ?_, fun b hb => ?_⟩⟩
    · exact hk (h.known_after hr hq (.inl ⟨d, hd⟩))
    · exact hk (h.known_after hr hq (.inr ⟨b, hb⟩))

theorem Recorded.after {t : Table} {done : List Request} (h : t.Recorded done) {r : Request}
    (hr : t.admits r = true) : (t.after r).Recorded (done ++ [r]) where
  known q hq k hk :=
    Nat.lt_of_lt_of_le (h.known_after hr hq hk) (size_identifiers_le_after t r)
  everywhere k i' hi' := by
    rcases h.old_or_new hr hi' with ⟨i, hi, hnoted⟩ | ⟨hnew, hno⟩
    · rw [hnoted.everywhere, h.everywhere k i hi, hnoted.scope]
      simp [or_and_right, exists_or]
    · rw [hnew]
      simp only [reduceCtorEq, false_iff, not_exists, not_and]
      exact fun q hq => (hno q hq).1 i'.scope
  covers k i' hi' b := by
    rcases h.old_or_new hr hi' with ⟨i, hi, hnoted⟩ | ⟨hnew, hno⟩
    · rw [hnoted.covers, h.covers k i hi, hnoted.scope]
      simp [or_and_right, exists_or]
    · rw [hnew]
      simp only [Assigned.covers, List.contains_toArray, List.contains_nil, Bool.false_eq_true,
        false_iff, not_exists, not_and, not_or]
      exact fun q hq => ⟨(hno q hq).1 i'.scope, (hno q hq).2 b⟩

theorem Recorded.afterEach {t : Table} {done : List Request} (h : t.Recorded done)
    {rs : List Request} (hrs : t.admitsEach rs = true) :
    (t.afterEach rs).Recorded (done ++ rs) := by
  induction rs generalizing t done with
  | nil =>
    rw [List.append_nil]
    exact h
  | cons r rs ih =>
    rw [admitsEach, Bool.and_eq_true] at hrs
    have hrest := ih (h.after hrs.1) hrs.2
    rwa [List.append_assoc] at hrest

/-! ### The search along the way to the root -/

/-- The first scope is the second one or lies around it. -/
def Encloses (t : Table) (outer s : Nat) : Prop :=
  Relation.ReflTransGen (fun inner p => t.parent? inner = some p) s outer

section

variable {t : Table}

theorem Tree.le_of_encloses (h : t.Tree) {outer s : Nat} (hin : t.Encloses outer s) :
    outer ≤ s := by
  induction hin with
  | refl => exact Nat.le_refl s
  | tail _ hp ih => exact Nat.le_trans (Nat.le_of_lt (h.parent_lt hp)) ih

theorem Tree.mem_ancestors_iff (h : t.Tree) {outer s : Nat} :
    outer ∈ t.ancestors s ↔ t.Encloses outer s := by
  constructor
  · induction s using Nat.strongRecOn with
    | ind s ih =>
      intro hmem
      cases hp : t.parent? s with
      | none =>
        rw [ancestors_of_none hp, List.mem_singleton] at hmem
        exact hmem ▸ .refl
      | some p =>
        rw [h.ancestors_of_parent hp] at hmem
        rcases List.mem_cons.mp hmem with rfl | hmem
        · exact .refl
        · exact .head hp (ih p (h.parent_lt hp) hmem)
  · intro hin
    induction hin using Relation.ReflTransGen.head_induction_on with
    | refl => exact mem_ancestors_self t outer
    | head hp _ ih =>
      rw [h.ancestors_of_parent hp]
      exact List.mem_cons_of_mem _ ih

/-- A scope stands on the way before the way has passed `d`, just if it is on the way and is not
around `d` there. -/
theorem Tree.firstOn_iff (h : t.Tree) {b d m : Nat} :
    FirstOn (t.ancestors b) (· = d) m ↔
      t.Encloses m b ∧ ¬ (t.Encloses d b ∧ m ≠ d ∧ t.Encloses m d) := by
  simp only [← h.mem_ancestors_iff]
  constructor
  · rintro ⟨inner, outer, hway, hinner⟩
    refine ⟨by rw [hway]; simp, ?_⟩
    rintro ⟨hd, hne, hmd⟩
    rw [hway] at hd
    rcases List.mem_append.mp hd with hd | hd
    · exact hinner d hd rfl
    · rw [← h.ancestors_of_append hway] at hd
      have hle := h.le_of_encloses (h.mem_ancestors_iff.mp hd)
      have hge := h.le_of_encloses (h.mem_ancestors_iff.mp hmd)
      exact hne (Nat.le_antisymm hge hle)
  · rintro ⟨hm, hnot⟩
    obtain ⟨inner, outer, hway, hfirst⟩ := List.eq_append_cons_of_mem hm
    refine ⟨inner, outer, hway, ?_⟩
    rintro near hnear rfl
    obtain ⟨i₁, i₂, rfl⟩ := List.append_of_mem hnear
    have hsplit : t.ancestors b = i₁ ++ near :: (i₂ ++ m :: outer) := by
      rw [hway, List.append_assoc, List.cons_append]
    have hup := h.ancestors_of_append hsplit
    refine hnot ⟨by rw [hway]; simp, ?_, by rw [hup]; simp⟩
    rintro rfl
    exact hfirst (by simp)

/-- The search finds a scope that the record vouches for, on the way up to the declaring scope. -/
theorem coveredUpTo_iff (i : Identifier) (way : List Nat) :
    coveredUpTo i way = true ↔
      ∃ s, FirstOn way (· = i.scope) s ∧ i.assigned.covers s = true := by
  induction way with
  | nil => simp [coveredUpTo, not_firstOn_nil]
  | cons a way ih =>
    simp only [coveredUpTo, firstOn_cons, Bool.or_eq_true, Bool.and_eq_true, bne_iff_ne, ih,
      or_and_right, exists_or, exists_eq_left', and_assoc, exists_and_left, ne_eq]

theorem isAssignedAlong_iff {k : Nat} {i : Identifier} (hi : t.identifiers[k]? = some i)
    (b : Nat) : t.isAssignedAlong k b = true ↔ i.assigned = .everywhere ∨
      ∃ s, FirstOn (t.ancestors b) (· = i.scope) s ∧ i.assigned.covers s = true := by
  unfold isAssignedAlong
  rw [hi]
  dsimp only
  rw [Bool.or_eq_true, beq_iff_eq, coveredUpTo_iff]

end

/-! ### What is assigned stays assigned -/

/-- The second table has come from the first one: scopes lie where they lay, and identifiers belong
to the same scopes and are assigned wherever they were. -/
structure Grows (t t' : Table) : Prop where
  parent : ∀ s p, t.parent? s = some p → t'.parent? s = some p
  identifier : ∀ (k : Nat) i, t.identifiers[k]? = some i → ∃ i', t'.identifiers[k]? = some i' ∧
    i'.scope = i.scope ∧ (i.assigned = .everywhere → i'.assigned = .everywhere) ∧
    ∀ b, i.assigned.covers b = true → i'.assigned.covers b = true

namespace Grows

variable {t t' t'' : Table}

theorem refl (t : Table) : Grows t t where
  parent _ _ hp := hp
  identifier _ i hi := ⟨i, hi, rfl, id, fun _ => id⟩

theorem trans (h : Grows t t') (h' : Grows t' t'') : Grows t t'' where
  parent s p hp := h'.parent s p (h.parent s p hp)
  identifier k i hi := by
    obtain ⟨i', hi', hscope, heverywhere, hcovers⟩ := h.identifier k i hi
    obtain ⟨i'', hi'', hscope', heverywhere', hcovers'⟩ := h'.identifier k i' hi'
    exact ⟨i'', hi'', hscope'.trans hscope, heverywhere' ∘ heverywhere,
      fun b hb => hcovers' b (hcovers b hb)⟩

theorem after (t : Table) (r : Request) : Grows t (t.after r) where
  parent s p hp := by
    cases r with
    | child q =>
      have hs : s < t.scopes.size := by
        by_contra hge
        rw [parent?_of_le (Nat.le_of_not_lt hge)] at hp
        cases hp
      exact ((kept_child t q).parent? s hs).trans hp
    | identifier scope name ty =>
      rw [Table.after]
      cases hd : t.declareIdentifier? scope name ty with
      | none => exact hp
      | some _ => exact (parent?_declareIdentifier hd s).trans hp
    | function scope name returnType arguments =>
      rw [Table.after]
      cases hd : t.declareFunction? scope name returnType arguments with
      | none => exact hp
      | some _ => exact (parent?_declareFunction hd s).trans hp
    | markEverywhere id => exact hp
    | markInBlock id block => exact hp
    | markAssigned id block =>
      rw [Table.after, Table.parent?, scopes_markAssigned]
      exact hp
  identifier k i hi := by
    obtain ⟨i', hi', hnoted⟩ := noted_after hi r
    refine ⟨i', hi', hnoted.scope, fun h => ?_, fun b hb => ?_⟩
    · exact hnoted.everywhere.mpr (.inl h)
    · exact (hnoted.covers b).mpr (.inl hb)

theorem afterEach (t : Table) (rs : List Request) : Grows t (t.afterEach rs) := by
  induction rs generalizing t with
  | nil => exact refl t
  | cons r rs ih => exact (after t r).trans (ih (t.after r))

theorem ancestors_prefix (h : Grows t t') (ht : t.Tree) (ht' : t'.Tree) (s : Nat) :
    t.ancestors s <+: t'.ancestors s := by
  induction s using Nat.strongRecOn with
  | ind s ih =>
    cases hp : t.parent? s with
    | none =>
      rw [ancestors_of_none hp, ancestors, ancestorsUpTo]
      exact List.prefix_append [s] _
    | some p =>
      rw [ht.ancestors_of_parent hp, ht'.ancestors_of_parent (h.parent s p hp)]
      exact List.cons_prefix_cons.mpr ⟨rfl, ih p (ht.parent_lt hp)⟩

theorem isAssignedAlong (h : Grows t t') (ht : t.Tree) (ht' : t'.Tree) {k b : Nat}
    (hk : t.isAssignedAlong k b = true) : t'.isAssignedAlong k b = true := by
  cases hi : t.identifiers[k]? with
  | none =>
    unfold Table.isAssignedAlong at hk
    rw [hi] at hk
    cases hk
  | some i =>
    obtain ⟨i', hi', hscope, heverywhere, hcovers⟩ := h.identifier k i hi
    rw [isAssignedAlong_iff hi']
    rw [isAssignedAlong_iff hi] at hk
    refine hk.imp heverywhere ?_
    rintro ⟨s, ⟨inner, outer, hway, hinner⟩, hs⟩
    obtain ⟨rest, hrest⟩ := h.ancestors_prefix ht ht' b
    refine ⟨s, ⟨inner, outer ++ rest, ?_, hscope ▸ hinner⟩, hcovers s hs⟩
    rw [← hrest, hway, List.append_assoc, List.cons_append]

end Grows

/-! ### Assignments change nothing but the records -/

/-- The table without the records of assignment. -/
def unmarked (t : Table) : Table :=
  { t with identifiers := t.identifiers.map fun i => { i with assigned := .inBlocks #[] } }

theorem unmarked_modify (t : Table) (id : Nat) {f : Identifier → Identifier}
    (hf : ∀ i, ∃ a, f i = { i with assigned := a }) :
    unmarked { t with identifiers := t.identifiers.modify id f } = t.unmarked := by
  unfold unmarked
  congr 1
  refine Array.ext_getElem? fun k => ?_
  rw [Array.getElem?_map, Array.getElem?_map, Array.getElem?_modify]
  split
  · rw [Option.map_map]
    refine congrArg (Option.map · _) (funext fun i => ?_)
    obtain ⟨a, ha⟩ := hf i
    rw [Function.comp, ha]
  · rfl

theorem unmarked_after_mark (t : Table) {r : Request} (hr : r.isMark = true) :
    (t.after r).unmarked = t.unmarked := by
  have heverywhere : ∀ id, (t.markEverywhere id).unmarked = t.unmarked :=
    fun id => unmarked_modify t id fun _ => ⟨_, rfl⟩
  have hinBlock : ∀ id block, (t.markInBlock id block).unmarked = t.unmarked :=
    fun id block => unmarked_modify t id fun _ => ⟨_, rfl⟩
  cases r with
  | markEverywhere id => exact heverywhere id
  | markInBlock id block => exact hinBlock id block
  | markAssigned id block =>
    rw [after, markAssigned]
    split
    · exact heverywhere id
    · exact hinBlock id block
  | _ => cases hr

theorem unmarked_after_other (t : Table) {r : Request} (hr : r.isMark = false) :
    (t.after r).unmarked = t.unmarked.after r := by
  cases r with
  | child parent => rfl
  | identifier scope name ty =>
    have hsize : t.unmarked.identifiers.size = t.identifiers.size := Array.size_map
    have hdeclared : t.unmarked.declared? scope name = t.declared? scope name := rfl
    simp only [after, declareIdentifier?, hdeclared]
    cases t.declared? scope name with
    | some _ => rfl
    | none =>
      simp only [Option.map_some, Option.getD_some, hsize]
      simp only [unmarked, Array.map_push]
      rfl
  | function scope name returnType arguments =>
    simp only [after, declareFunction?]
    have hbuiltin : t.unmarked.builtin? name arguments.length = t.builtin? name arguments.length :=
      rfl
    have hdeclared : t.unmarked.resolveDeclared? scope name arguments.length =
        t.resolveDeclared? scope name arguments.length := by
      have hparent : ∀ s, t.unmarked.parent? s = t.parent? s := fun _ => rfl
      unfold resolveDeclared?
      rw [ancestors_eq_of_parent? hparent scope]
      rfl
    rw [hbuiltin, hdeclared]
    split <;> rfl
  | _ => cases hr

theorem unmarked_afterEach (t : Table) (rs : List Request) :
    (t.afterEach rs).unmarked = t.unmarked.afterEach (rs.filter (!·.isMark)) := by
  induction rs generalizing t with
  | nil => rfl
  | cons r rs ih =>
    have hcons : t.afterEach (r :: rs) = (t.after r).afterEach rs := rfl
    rw [hcons, ih]
    cases hr : r.isMark with
    | true => rw [unmarked_after_mark t hr, List.filter_cons_of_neg (by simp [hr])]
    | false =>
      rw [unmarked_after_other t hr, List.filter_cons_of_pos (by simp [hr])]
      rfl

/-! ### The history decides -/

/-- After requests from the initial table on, a block relies on an identifier of scope `d` just if
one of them has assigned it everywhere, or in a scope that is the block or lies around it, but not
around `d` where `d` itself is such a scope. -/
theorem isAssignedAlong_afterEach {rs : List Request} (h : initial.admitsEach rs = true)
    {k : Nat} {i : Identifier} (hi : (initial.afterEach rs).identifiers[k]? = some i) (b : Nat) :
    (initial.afterEach rs).isAssignedAlong k b = true ↔
      Request.markEverywhere k ∈ rs ∨ Request.markAssigned k i.scope ∈ rs ∨
        ∃ m, (Request.markAssigned k m ∈ rs ∨ Request.markInBlock k m ∈ rs) ∧
          (initial.afterEach rs).Encloses m b ∧
          ¬ ((initial.afterEach rs).Encloses i.scope b ∧ m ≠ i.scope ∧
            (initial.afterEach rs).Encloses m i.scope) := by
  have htree : (initial.afterEach rs).Tree := tree_initial.afterEach h
  have hrecorded : (initial.afterEach rs).Recorded rs := recorded_initial.afterEach h
  rw [isAssignedAlong_iff hi, hrecorded.everywhere k i hi]
  simp only [htree.firstOn_iff, hrecorded.covers k i hi]
  have heverywhere : (∃ r ∈ rs, r.AssignsEverywhere k i.scope) ↔
      Request.markEverywhere k ∈ rs ∨ Request.markAssigned k i.scope ∈ rs := by
    simp [Request.AssignsEverywhere, and_or_left, exists_or]
  have hin : ∀ m, (∃ r ∈ rs, r.AssignsIn k m) ↔
      Request.markAssigned k m ∈ rs ∨ Request.markInBlock k m ∈ rs := by
    simp [Request.AssignsIn, and_or_left, exists_or]
  rw [← or_assoc, ← heverywhere]
  constructor
  · rintro (hev | ⟨m, hm, r, hr, hev | hin'⟩)
    · exact .inl hev
    · exact .inl ⟨r, hr, hev⟩
    · exact .inr ⟨m, (hin m).mp ⟨r, hr, hin'⟩, hm⟩
  · rintro (hev | ⟨m, hmark, hm⟩)
    · exact .inl hev
    · obtain ⟨r, hr, hin'⟩ := (hin m).mpr hmark
      exact .inr ⟨m, hm, r, hr, .inr hin'⟩

/-- Requests that differ only in the order and the number of the assignments make tables with the
same scopes, and with the same identifiers but for the records. -/
theorem unmarked_eq_of_filter_eq {rs rs' : List Request}
    (h : rs'.filter (!·.isMark) = rs.filter (!·.isMark)) :
    (initial.afterEach rs').unmarked = (initial.afterEach rs).unmarked := by
  rw [unmarked_afterEach, unmarked_afterEach, h]

/-- The same new scopes and declarations in the same order, with the same assignments in any order
and number, let a block rely on the same identifiers. -/
theorem isAssignedAlong_afterEach_eq {rs rs' : List Request} (h : initial.admitsEach rs = true)
    (h' : initial.admitsEach rs' = true)
    (hfilter : rs'.filter (!·.isMark) = rs.filter (!·.isMark))
    (hmarks : ∀ r, r.isMark = true → (r ∈ rs' ↔ r ∈ rs)) {k : Nat} {i : Identifier}
    (hi : (initial.afterEach rs).identifiers[k]? = some i) (b : Nat) :
    (initial.afterEach rs').isAssignedAlong k b = (initial.afterEach rs).isAssignedAlong k b := by
  have hunmarked := unmarked_eq_of_filter_eq hfilter
  have hscopes : (initial.afterEach rs').scopes = (initial.afterEach rs).scopes :=
    congrArg (·.scopes) hunmarked
  have hencloses : (initial.afterEach rs').Encloses = (initial.afterEach rs).Encloses := by
    unfold Encloses parent?
    rw [hscopes]
  -- The identifier is there, with the same scope, after the other requests too.
  obtain ⟨i', hi', hscope⟩ : ∃ i', (initial.afterEach rs').identifiers[k]? = some i' ∧
      i'.scope = i.scope := by
    have hids := congrArg (fun t : Table => (t.identifiers[k]?).map (·.scope)) hunmarked
    simp only [unmarked, Array.getElem?_map, Option.map_map, hi] at hids
    exact Option.map_eq_some_iff.mp hids
  rw [Bool.eq_iff_iff, isAssignedAlong_afterEach h' hi', isAssignedAlong_afterEach h hi, hscope,
    hencloses]
  simp only [hmarks _ (rfl : (Request.markEverywhere _).isMark = true),
    hmarks _ (rfl : (Request.markAssigned _ _).isMark = true),
    hmarks _ (rfl : (Request.markInBlock _ _).isMark = true)]

/-- A record that names the block itself is found on the way from the block. -/
theorem isAssignedAlong_of_isAssigned {t : Table} {k b : Nat} (h : t.isAssigned k b = true) :
    t.isAssignedAlong k b = true := by
  cases hi : t.identifiers[k]? with
  | none =>
    rw [isAssigned, hi] at h
    cases h
  | some i =>
    rw [isAssigned, hi] at h
    refine (isAssignedAlong_iff hi b).mpr (.inr ⟨b, ⟨[], ?_⟩, h⟩)
    rw [ancestors, ancestorsUpTo]
    exact ⟨_, rfl, by simp⟩

/-- **Assignment is determined by the history.**  Let requests have made a table from the initial
one, and let the table have an identifier of scope `d`.

A block relies on the identifier just if one of the requests assigns it everywhere, or in `d`, or in
a scope that is the block or lies around it, but not around `d` where `d` itself is such a scope.
What a block relies on it still relies on after any further requests.  Requests with the same new
scopes and declarations in the same order, and with the same assignments in any order and number,
let a block rely on the same identifiers.  And a block relies on what its own record vouches for. -/
theorem assigned_by_history {rs : List Request} (h : initial.admitsEach rs = true)
    {k : Nat} {i : Identifier} (hi : (initial.afterEach rs).identifiers[k]? = some i) (b : Nat) :
    ((initial.afterEach rs).isAssignedAlong k b = true ↔
      Request.markEverywhere k ∈ rs ∨ Request.markAssigned k i.scope ∈ rs ∨
        ∃ m, (Request.markAssigned k m ∈ rs ∨ Request.markInBlock k m ∈ rs) ∧
          (initial.afterEach rs).Encloses m b ∧
          ¬ ((initial.afterEach rs).Encloses i.scope b ∧ m ≠ i.scope ∧
            (initial.afterEach rs).Encloses m i.scope)) ∧
    (∀ later, initial.admitsEach (rs ++ later) = true →
      (initial.afterEach rs).isAssignedAlong k b = true →
      (initial.afterEach (rs ++ later)).isAssignedAlong k b = true) ∧
    (∀ rs', initial.admitsEach rs' = true →
      rs'.filter (!·.isMark) = rs.filter (!·.isMark) →
      (∀ r, r.isMark = true → (r ∈ rs' ↔ r ∈ rs)) →
      (initial.afterEach rs').isAssignedAlong k b = (initial.afterEach rs).isAssignedAlong k b) ∧
    ((initial.afterEach rs).isAssigned k b = true →
      (initial.afterEach rs).isAssignedAlong k b = true) := by
  refine ⟨isAssignedAlong_afterEach h hi b, fun later hlater hb => ?_,
    fun rs' h' hfilter hmarks => isAssignedAlong_afterEach_eq h h' hfilter hmarks hi b,
    isAssignedAlong_of_isAssigned⟩
  rw [afterEach_append]
  rw [admitsEach_append, Bool.and_eq_true] at hlater
  have htree : (initial.afterEach rs).Tree := tree_initial.afterEach h
  exact (Grows.afterEach _ later).isAssignedAlong htree (htree.afterEach hlater.2) hb

/-- Three nested blocks: `x` of the middle one is assigned in the inner one and in the root, and a
block inside the middle one is opened only then. -/
def innerAssigned : List Request :=
  [.child root, .child 1, .identifier 1 "x" .integer, .markInBlock 0 root, .markAssigned 0 2,
    .child 1, .child 2]

/-- The inner block and the one inside it rely on `x`; the middle one does not, nor does the block
beside the inner one, as the root lies around the scope of `x`. -/
theorem innerAssigned_by_history :
    initial.admitsEach innerAssigned = true ∧
      (initial.afterEach innerAssigned).isAssignedAlong 0 4 = true ∧
      (initial.afterEach innerAssigned).isAssignedAlong 0 3 = false ∧
      (initial.afterEach (innerAssigned ++ [.markAssigned 0 1])).isAssignedAlong 0 3 = true ∧
      (initial.afterEach (innerAssigned ++ [.markAssigned 0 2])).isAssignedAlong 0 4 =
        (initial.afterEach innerAssigned).isAssignedAlong 0 4 := by
  have h : initial.admitsEach innerAssigned = true := by decide +kernel
  have hi : (initial.afterEach innerAssigned).identifiers[0]? = some
      { id := 0, name := "x", ty := .integer, level := 2, scope := 1,
        assigned := .inBlocks #[0, 2] } := by decide +kernel
  have htree : (initial.afterEach innerAssigned).Tree := tree_initial.afterEach h
  obtain ⟨hiff, -, horder, -⟩ := assigned_by_history h hi 4
  refine ⟨h, hiff.mpr (.inr (.inr ⟨2, by decide +kernel, ?_, ?_⟩)), by decide +kernel,
    by decide +kernel, ?_⟩
  · exact htree.mem_ancestors_iff.mp (by decide +kernel)
  · rintro ⟨-, -, hin⟩
    exact absurd (htree.le_of_encloses hin) (by decide)
  · refine horder _ (by decide +kernel) (by decide +kernel) fun r _ => ?_
    rw [List.mem_append, List.mem_singleton, or_iff_left_of_imp]
    rintro rfl
    decide +kernel

end Quill.Scope.Table
