import Quill.Proofs.Tree.Definite
import Quill.Proofs.Typing.Flow

/-! # Marks of variables and sets of declarations

A context marks each variable in scope as assigned or not; a point has one set for all declarations,
also for those of blocks that have been left.  A context agrees with a point if it has the variables
of the declarations in scope and marks those that are in the set.  Following a statement keeps the
agreement (`Agrees.flow`), since a declaration that comes into scope is new to the set. -/

namespace Quill.Typing

section

variable {α β γ : Type} {R S : α → β → Prop}

/-- What follows from a relation for the members of a list holds place by place. -/
theorem forall₂_imp_mem {l : List α} {m : List β} (h : List.Forall₂ R l m)
    (hi : ∀ a ∈ l, ∀ b, R a b → S a b) : List.Forall₂ S l m := by
  induction h with
  | nil => exact .nil
  | cons hab _ ih =>
    exact .cons (hi _ (List.mem_cons_self ..) _ hab)
      (ih fun a ha => hi a (List.mem_cons_of_mem _ ha))

theorem forall₂_tail {l : List α} {m : List β} (h : List.Forall₂ R l m) :
    List.Forall₂ R l.tail m.tail := by
  cases h with
  | nil => exact .nil
  | cons _ hrest => exact hrest

/-- Two lists that are related to a third are put together place by place. -/
theorem forall₂_zipWith {T : α → β → Prop} {f : β → β → β}
    (hT : ∀ a b c, R a b → S a c → T a (f b c)) {l : List α} {m n : List β}
    (h : List.Forall₂ R l m) (h' : List.Forall₂ S l n) :
    List.Forall₂ T l (List.zipWith f m n) := by
  induction h generalizing n with
  | nil => cases h'; exact .nil
  | cons hr _ ih =>
    cases h' with
    | cons hs hrest => exact .cons (hT _ _ _ hr hs) (ih hrest)

end

/-! ### Agreement -/

/-- The variable has the name of the declaration, and it is marked just if the declaration is in the
set. -/
def Marks (A : Finset Declaration) (q : String × Declaration) (p : String × Var) : Prop :=
  q.1 = p.1 ∧ (p.2.assigned = true ↔ q.2 ∈ A)

/-- The context has the variables of the declarations, marked as the set says. -/
def Marked (A : Finset Declaration) (bs : List (List (String × Declaration))) (Γ : Ctx) : Prop :=
  List.Forall₂ (List.Forall₂ (Marks A)) bs Γ

/-- The context agrees with the point. -/
def Agrees (P : Point) (Γ : Ctx) : Prop := Marked P.assigned P.blocks Γ

section

variable {A A' : Finset Declaration} {b : List (String × Declaration)} {c : Block}
  {bs : List (List (String × Declaration))} {Γ : Ctx} {x : String} {d : Declaration}

theorem lookup_marks (h : List.Forall₂ (Marks A) b c) (x : String) :
    Option.Rel (fun d v => v.assigned = true ↔ d ∈ A) (b.lookup x) (c.lookup x) := by
  induction h with
  | nil => exact .none
  | @cons q p b c hqp _ ih =>
    rw [List.lookup_cons, List.lookup_cons, ← hqp.1]
    cases x == q.1 with
    | true => exact .some hqp.2
    | false => exact ih

theorem Marked.findSome? (h : Marked A bs Γ) (x : String) :
    Option.Rel (fun d v => v.assigned = true ↔ d ∈ A) (bs.findSome? (·.lookup x)) (Γ.find? x) := by
  induction h with
  | nil => exact .none
  | @cons b c bs Γ hbc _ ih =>
    have hrel := lookup_marks hbc x
    rw [List.findSome?_cons, Ctx.find?_cons]
    generalize b.lookup x = found, c.lookup x = known at hrel
    cases hrel with
    | none => exact ih
    | some hr => exact .some hr

theorem isSome_lookup_marks (h : List.Forall₂ (Marks A) b c) (x : String) :
    (c.lookup x).isSome = (b.lookup x).isSome := by
  have hrel := lookup_marks h x
  generalize b.lookup x = found, c.lookup x = known at hrel
  cases hrel <;> rfl

theorem marks_congr (h : List.Forall₂ (Marks A) b c)
    (hA : ∀ d ∈ b.map Prod.snd, d ∈ A ↔ d ∈ A') : List.Forall₂ (Marks A') b c :=
  forall₂_imp_mem h fun q hq _ hm => ⟨hm.1, hm.2.trans (hA q.2 (List.mem_map_of_mem hq))⟩

theorem Marked.congr (h : Marked A bs Γ)
    (hA : ∀ d ∈ bs.flatten.map Prod.snd, d ∈ A ↔ d ∈ A') : Marked A' bs Γ := by
  refine forall₂_imp_mem h fun b hb _ hm => marks_congr hm fun d hd => hA d ?_
  obtain ⟨q, hq, rfl⟩ := List.mem_map.mp hd
  exact List.mem_map_of_mem (List.mem_flatten.mpr ⟨b, hb, hq⟩)

theorem mem_iff_mem_insert {ds : List Declaration} (hd : d ∉ ds) :
    ∀ e ∈ ds, e ∈ A ↔ e ∈ insert d A := by
  intro e he
  rw [Finset.mem_insert]
  refine ⟨.inr, fun h => h.resolve_left ?_⟩
  rintro rfl
  exact hd he

/-! ### Assignments -/

theorem mem_of_lookup_eq_some (h : b.lookup x = some d) : d ∈ b.map Prod.snd := by
  obtain ⟨pre, post, rfl, -⟩ := List.lookup_eq_some_iff.mp h
  simp

theorem marks_assign (h : List.Forall₂ (Marks A) b c) (hnodup : (b.map Prod.snd).Nodup)
    (hd : b.lookup x = some d) : List.Forall₂ (Marks (insert d A)) b (c.assign x) := by
  induction h with
  | nil => cases hd
  | @cons q p b c hqp hrest ih =>
    obtain ⟨hnew, hnodup⟩ := List.nodup_cons.mp hnodup
    rw [List.lookup_cons] at hd
    rw [Block.assign, ← hqp.1]
    cases hx : x == q.1 with
    | true =>
      rw [hx] at hd
      obtain rfl := Option.some.inj hd
      exact .cons ⟨rfl, iff_of_true rfl (Finset.mem_insert_self ..)⟩
        (marks_congr hrest (mem_iff_mem_insert hnew))
    | false =>
      rw [hx] at hd
      have hne : q.2 ≠ d := fun heq => hnew (heq ▸ mem_of_lookup_eq_some hd)
      refine .cons ⟨rfl, hqp.2.trans ?_⟩ (ih hnodup hd)
      rw [Finset.mem_insert, or_iff_right hne]

theorem Marked.assign (h : Marked A bs Γ) (hnodup : (bs.flatten.map Prod.snd).Nodup)
    (hd : bs.findSome? (·.lookup x) = some d) : Marked (insert d A) bs (Γ.assign x) := by
  induction h with
  | nil => cases hd
  | @cons b c bs Γ hbc hrest ih =>
    rw [List.flatten_cons, List.map_append, List.nodup_append'] at hnodup
    obtain ⟨hb, hbs, hdisjoint⟩ := hnodup
    rw [List.findSome?_cons] at hd
    rw [Ctx.assign, isSome_lookup_marks hbc]
    cases hx : b.lookup x with
    | some e =>
      rw [hx] at hd
      obtain rfl := Option.some.inj hd
      have hmem := mem_of_lookup_eq_some hx
      exact .cons (marks_assign hbc hb hx) (Marked.congr hrest
        (mem_iff_mem_insert fun hd => hdisjoint hmem hd))
    | none =>
      rw [hx] at hd
      have hmem : d ∈ bs.flatten.map Prod.snd := Point.mem_declared_of_find? (P := ⟨bs, A⟩) hd
      exact .cons (marks_congr hbc (mem_iff_mem_insert fun hd => hdisjoint hd hmem)) (ih hbs hd)

end

namespace Agrees

variable {P : Point} {Γ Δ : Ctx} {d : Declaration}

theorem find? (h : Agrees P Γ) (x : String) :
    Option.Rel (fun d v => v.assigned = true ↔ d ∈ P.assigned) (P.find? x) (Γ.find? x) :=
  Marked.findSome? h x

theorem inner (h : Agrees P Γ) : Agrees P.inner ([] :: Γ) := .cons .nil h

theorem assign (h : Agrees P Γ) (hnodup : P.declared.Nodup) (x : String) :
    Agrees (P.assign x) (Γ.assign x) := by
  have hrel := h.find? x
  unfold Point.assign
  cases hd : P.find? x with
  | some d => exact Marked.assign h hnodup hd
  | none =>
    have hnone : Γ.find? x = none := by
      rw [hd] at hrel
      generalize Γ.find? x = known at hrel ⊢
      cases hrel
      rfl
    rw [Ctx.assign_eq_self hnone]
    exact h

/-- A declaration that the point does not know is in the set just if it has an initializer. -/
theorem declare (h : Agrees P Γ) (hd : ¬ P.Knows d) (x : String) (ty : Ty) (isInitialized : Bool) :
    Agrees (P.declare x d isInitialized) (Γ.declare x ⟨ty, isInitialized⟩) := by
  obtain ⟨bs, A⟩ := P
  have hset : d ∉ A := fun hmem => hd (.inl hmem)
  have hscope : d ∉ bs.flatten.map Prod.snd := fun hmem => hd (.inr hmem)
  have hmarked : Marked A bs Γ := h
  clear h hd
  cases hmarked with
  | nil => exact .nil
  | @cons b c bs Γ hbc hrest =>
    unfold Point.declare Ctx.declare
    dsimp only
    rw [isSome_lookup_marks hbc]
    split
    · exact .cons hbc hrest
    · have hnew : Marked (if isInitialized then insert d A else A) (b :: bs) (c :: Γ) := by
        split
        · exact Marked.congr (.cons hbc hrest) (mem_iff_mem_insert hscope)
        · exact .cons hbc hrest
      obtain ⟨hbc, hrest⟩ := List.forall₂_cons.mp hnew
      refine .cons (.cons ⟨rfl, ?_⟩ hbc) hrest
      cases isInitialized with
      | true => exact iff_of_true rfl (Finset.mem_insert_self ..)
      | false => exact iff_of_false Bool.false_ne_true hset

/-- What both branches assign is what is in both of their sets. -/
theorem both {A B : Finset Declaration} (hA : Marked A P.blocks Γ) (hB : Marked B P.blocks Δ)
    (hleA : P.assigned ⊆ A) (hleB : P.assigned ⊆ B) :
    Agrees { P with assigned := P.assigned ∪ (A ∩ B) } (Γ.both Δ) := by
  have hset : P.assigned ∪ (A ∩ B) = A ∩ B :=
    Finset.union_eq_right.mpr (Finset.subset_inter hleA hleB)
  show Marked (P.assigned ∪ (A ∩ B)) P.blocks (Γ.both Δ)
  rw [hset]
  refine forall₂_zipWith (fun b c c' h h' => ?_) hA hB
  refine forall₂_zipWith (fun q p p' h h' => ⟨h.1, ?_⟩) h h'
  rw [Finset.mem_inter, ← h.2, ← h'.2]
  exact Bool.and_eq_true_iff

theorem leave {way : Way} {body : List Stmt}
    (h : Agrees (stmtsFlow way 0 P.inner body) (afterAll ([] :: Γ) body)) :
    Marked (stmtsFlow way 0 P.inner body).assigned P.blocks (afterAll ([] :: Γ) body).tail := by
  have htail := forall₂_tail h
  rw [tail_blocks_stmtsFlow] at htail
  exact htail

end Agrees

mutual

theorem Agrees.flow {way : Way} {k : Nat} {P : Point} {Γ : Ctx} (h : Agrees P Γ)
    (hk : P.Ahead way k) : ∀ s : Stmt, Agrees (s.flow way k P) (after Γ s)
  | .decl _ x ty init => h.declare hk.not_knows x ty init.isSome
  | .assign _ x _ _ => h.assign hk.nodup x
  | .ifElse _ _ body other =>
    .both (leave (h.inner.stmtsFlow (hk.inner 0) body))
      (leave (h.inner.stmtsFlow (hk.inner 1) other))
      (assigned_subset_stmtsFlow ((k, 0) :: way) body 0 P.inner)
      (assigned_subset_stmtsFlow ((k, 1) :: way) other 0 P.inner)
  | .doWhile _ body _ | .block _ body => leave (h.inner.stmtsFlow (hk.inner 0) body)
  | .expr _ _ | .assignElement _ _ _ _ _ | .ifThen _ _ _ | .while _ _ _ | .ret _ _ => h

theorem Agrees.stmtsFlow {way : Way} {k : Nat} {P : Point} {Γ : Ctx} (h : Agrees P Γ)
    (hk : P.Ahead way k) : ∀ ss : List Stmt, Agrees (stmtsFlow way k P ss) (afterAll Γ ss)
  | [] => h
  | s :: rest => (h.flow hk s).stmtsFlow (hk.flow s) rest

end

end Quill.Typing
