import Quill.Proofs.Lowering.Layout
import Quill.Proofs.Typing.Rules

/-! # Visible variables and contexts

The variables that lowering sees at a point are those of the context of the typing rules, in the
same order (`Agrees`).  `assignedSlots` are the local slots of the variables that the context calls
assigned.  A block takes its own variables away again, and no two variables that are visible at a
point share a slot. -/

namespace Quill.Lowering

open Code Typing

/-- The visible variables are those of a context. -/
def Agrees (visible : Visible) (Γ : Ctx) : Prop :=
  List.Forall₂ (fun x y => x.1 = y.1 ∧ x.2.ty = y.2.ty) visible Γ.flatten

/-- The local slots of the variables that the context calls assigned. -/
def assignedSlots (visible : Visible) (Γ : Ctx) (k : Nat) : Prop :=
  ∃ x ∈ visible.zip Γ.flatten, x.2.2.assigned = true ∧ x.1.2.slot = .local k

/-- A visible variable lives in a slot of its type; of the local slots only the first `n` are
taken. -/
def SlotOk (m : Method) (n : Nat) (b : Binding) : Prop :=
  match b.slot with
  | .arg k => m.params[k]? = some b.ty
  | .local k => k < n ∧ ∃ x, m.locals[k]? = some ⟨x, b.ty⟩

/-- Every visible variable of a point has a slot. -/
def Housed (m : Method) (p : Point) : Prop := ∀ x ∈ p.visible, SlotOk m p.slots x.2

/-! ### Looking up -/

/-- Lists with the same names have related things under a name, if they have them at each place. -/
theorem lookup_of_forall₂ {α β : Type} {R : String → α → β → Prop} {xs : List (String × α)}
    {ys : List (String × β)} (h : List.Forall₂ (fun p q => p.1 = q.1 ∧ R p.1 p.2 q.2) xs ys)
    {x : String} {a : α} (ha : xs.lookup x = some a) : ∃ b, ys.lookup x = some b ∧ R x a b := by
  induction h with
  | nil => cases ha
  | @cons p q xs ys hpq _ ih =>
    obtain ⟨hkey, hr⟩ := hpq
    rw [List.lookup_cons] at ha
    rw [List.lookup_cons, ← hkey]
    cases hx : x == p.1 with
    | true =>
      rw [hx] at ha
      obtain rfl : x = p.1 := eq_of_beq hx
      exact ⟨q.2, rfl, Option.some.inj ha ▸ hr⟩
    | false =>
      rw [hx] at ha
      exact ih ha

theorem lookup_zip {visible : Visible} {ys : Block}
    (h : List.Forall₂ (fun x y => x.1 = y.1 ∧ x.2.ty = y.2.ty) visible ys) (x : String) :
    Option.Rel (fun b v => b.ty = v.ty ∧ ((x, b), (x, v)) ∈ visible.zip ys)
      (visible.lookup x) (ys.lookup x) := by
  induction h with
  | nil => exact .none
  | @cons p q visible ys hpq _ ih =>
    obtain ⟨y, b⟩ := p
    obtain ⟨z, v⟩ := q
    obtain ⟨rfl, hty⟩ := hpq
    rw [List.lookup_cons, List.lookup_cons]
    dsimp only at hty ⊢
    cases hx : x == y with
    | true =>
      obtain rfl : x = y := eq_of_beq hx
      exact .some ⟨hty, List.mem_cons_self ..⟩
    | false =>
      dsimp only
      generalize visible.lookup x = found, ys.lookup x = known at ih
      cases ih with
      | none => exact .none
      | some hr => exact .some ⟨hr.1, List.mem_cons_of_mem _ hr.2⟩

namespace Agrees

variable {visible : Visible} {Γ Δ : Ctx} {b : Block}

theorem lookup_rel (h : Agrees visible Γ) (x : String) :
    Option.Rel (fun y v => y.ty = v.ty ∧ ((x, y), (x, v)) ∈ visible.zip Γ.flatten)
      (visible.lookup x) (Γ.find? x) := by
  rw [← Ctx.lookup_flatten]
  exact lookup_zip h x

theorem find? (h : Agrees visible Γ) {x : String} {y : Binding}
    (hy : visible.lookup x = some y) :
    ∃ v, Γ.find? x = some v ∧ y.ty = v.ty ∧ ((x, y), (x, v)) ∈ visible.zip Γ.flatten := by
  have hrel := h.lookup_rel x
  rw [hy] at hrel
  generalize Γ.find? x = known at hrel ⊢
  cases hrel with
  | some hr => exact ⟨_, rfl, hr⟩

theorem lookup (h : Agrees visible Γ) {x : String} {v : Var} (hv : Γ.find? x = some v) :
    ∃ y, visible.lookup x = some y ∧ y.ty = v.ty ∧ ((x, y), (x, v)) ∈ visible.zip Γ.flatten := by
  have hrel := h.lookup_rel x
  rw [hv] at hrel
  generalize visible.lookup x = found at hrel ⊢
  cases hrel with
  | some hr => exact ⟨_, rfl, hr⟩

theorem le (h : Agrees visible Γ) (hle : Ctx.Le Γ Δ) : Agrees visible Δ :=
  forall₂_comp (fun _ _ _ h h' => ⟨h.1.trans h'.1, h.2.trans h'.2.1⟩) h hle.flatten

theorem cons (h : Agrees visible (b :: Γ)) (x : String) (slot : Slot) (v : Var) :
    Agrees ((x, ⟨slot, v.ty⟩) :: visible) (((x, v) :: b) :: Γ) := List.Forall₂.cons ⟨rfl, rfl⟩ h

end Agrees

/-! ### Assigned slots -/

theorem assignedSlots_le {visible : Visible} {Γ Δ : Ctx} (hle : Ctx.Le Γ Δ) {k : Nat}
    (h : assignedSlots visible Γ k) : assignedSlots visible Δ k := by
  have hflat := hle.flatten
  unfold assignedSlots at h ⊢
  generalize Γ.flatten = xs, Δ.flatten = ys at hflat h ⊢
  induction hflat generalizing visible with
  | nil => exact h
  | cons hpq _ ih =>
    cases visible with
    | nil => exact h
    | cons y visible =>
      rw [List.zip_cons_cons] at h ⊢
      obtain ⟨x, hx, ha, hs⟩ := h
      rcases List.mem_cons.mp hx with rfl | hx
      · exact ⟨_, List.mem_cons_self .., hpq.2.2 ha, hs⟩
      · obtain ⟨x', hx', ha', hs'⟩ := ih ⟨x, hx, ha, hs⟩
        exact ⟨x', List.mem_cons_of_mem _ hx', ha', hs'⟩

theorem flatten_assign (x : String) (Γ : Ctx) :
    (Γ.assign x).flatten = Block.assign x Γ.flatten := by
  induction Γ with
  | nil => rfl
  | cons b Γ ih =>
    have happ : ∀ (b : Block) (ys : Block), Block.assign x (b ++ ys) =
        if (b.lookup x).isSome then Block.assign x b ++ ys else b ++ Block.assign x ys := by
      intro b ys
      induction b with
      | nil => rfl
      | cons p b ih =>
        rw [List.cons_append, List.lookup_cons, Block.assign, Block.assign]
        cases hx : x == p.1 with
        | true => rfl
        | false =>
          simp only [Bool.false_eq_true, if_false, ih]
          split <;> rfl
    rw [Ctx.assign, List.flatten_cons, happ]
    split
    · rfl
    · rw [List.flatten_cons, ih]

/-- An assignment adds the slot of the variable that its name means. -/
theorem assignedSlots_assign {visible : Visible} {Γ : Ctx} {x : String} {y : Binding} {k : Nat}
    (hag : Agrees visible Γ) (hy : visible.lookup x = some y)
    (h : assignedSlots visible (Γ.assign x) k) : y.slot = .local k ∨ assignedSlots visible Γ k := by
  unfold assignedSlots Agrees at *
  rw [flatten_assign] at h
  generalize Γ.flatten = ys at hag h ⊢
  induction hag with
  | nil => cases hy
  | @cons p q visible ys hpq _ ih =>
    obtain ⟨z, v⟩ := q
    have hname : p.1 = z := hpq.1
    subst hname
    rw [List.lookup_cons] at hy
    rw [Block.assign] at h
    cases hx : x == p.1 with
    | true =>
      rw [hx] at hy h
      obtain ⟨w, hw, ha, hs⟩ := h
      rcases List.mem_cons.mp hw with rfl | hw
      · have hpy : p.2 = y := Option.some.inj hy
        exact .inl (hpy ▸ hs)
      · exact .inr ⟨w, List.mem_cons_of_mem _ hw, ha, hs⟩
    | false =>
      rw [hx] at hy h
      obtain ⟨w, hw, ha, hs⟩ := h
      rcases List.mem_cons.mp hw with rfl | hw
      · exact .inr ⟨_, List.mem_cons_self .., ha, hs⟩
      · rcases ih hy ⟨w, hw, ha, hs⟩ with hk | ⟨w', hw', hrest⟩
        · exact .inl hk
        · exact .inr ⟨w', List.mem_cons_of_mem _ hw', hrest⟩

theorem assignedSlots_outer {visible inner pre : Visible} {b : Block} {Γ : Ctx} {k : Nat}
    (hinner : Agrees inner (b :: Γ)) (houter : Agrees visible Γ) (heq : inner = pre ++ visible)
    (h : assignedSlots visible Γ k) : assignedSlots inner (b :: Γ) k := by
  have hlen : pre.length = b.length := by
    have h₁ := hinner.length_eq
    have h₂ := houter.length_eq
    rw [heq, List.length_append, List.flatten_cons, List.length_append] at h₁
    omega
  obtain ⟨x, hx, hrest⟩ := h
  refine ⟨x, ?_, hrest⟩
  rw [heq, List.flatten_cons, List.zip_append hlen]
  exact List.mem_append_right _ hx

/-! ### Variables along the code of a statement -/

/-- The variable that a statement itself declares, in the next slot. -/
def declaredBy (slot : Nat) : Stmt → Visible
  | .decl _ x ty _ => [(x, ⟨.local slot, ty⟩)]
  | .expr _ _ | .assign _ _ _ _ | .assignElement _ _ _ _ _ | .ifThen _ _ _ | .ifElse _ _ _ _
  | .while _ _ _ | .doWhile _ _ _ | .ret _ _ | .block _ _ => []

section

variable {M : Methods} {m : Method} {strings : Array String} {returnType : Ty}
  {fs : List FunctionDecl}

theorem StmtCode.visible {p q : Point} {s : Stmt} (h : StmtCode M m strings returnType p s q) :
    q.visible = declaredBy p.slots s ++ p.visible := by
  cases s with
  | expr _ e =>
    obtain ⟨_, _, _, _, _, rfl⟩ := h
    rfl
  | decl _ x ty init =>
    cases init with
    | none =>
      obtain ⟨_, rfl⟩ := h
      rfl
    | some e =>
      obtain ⟨_, _, _, _, rfl⟩ := h
      rfl
  | assign _ x _ value =>
    obtain ⟨_, _, _, _, _, rfl⟩ := h
    rfl
  | assignElement _ x is _ value =>
    obtain ⟨_, _, _, _, _, _, _, _, _, _, rfl⟩ := h
    rfl
  | ifThen _ cond body =>
    obtain ⟨_, _, _, _, _, _, _, _, _, _, rfl⟩ := h
    rfl
  | ifElse _ cond body other =>
    obtain ⟨_, _, _, _, _, _, _, _, _, _, _, _, rfl⟩ := h
    rfl
  | «while» _ cond body =>
    obtain ⟨_, _, _, _, _, _, _, _, _, _, _, _, _, rfl⟩ := h
    rfl
  | doWhile _ body cond =>
    obtain ⟨_, _, _, _, _, _, _, _, _, _, _, rfl⟩ := h
    rfl
  | ret _ value =>
    cases value with
    | none =>
      obtain ⟨_, rfl⟩ := h
      rfl
    | some e =>
      unfold StmtCode at h
      split at h
      · obtain ⟨_, _, _, rfl⟩ := h
        rfl
      · obtain ⟨_, _, _, _, _, _, rfl⟩ := h
        rfl
  | block _ body =>
    obtain ⟨_, _, rfl⟩ := h
    rfl

theorem StmtsCode.visible {ss : List Stmt} :
    ∀ {p q : Point}, StmtsCode M m strings returnType p ss q →
      ∃ pre, q.visible = pre ++ p.visible := by
  induction ss with
  | nil => exact fun h => ⟨[], congrArg Point.visible h⟩
  | cons s ss ih =>
    rintro p q ⟨e, hs, hss⟩
    obtain ⟨pre, hpre⟩ := ih hss
    exact ⟨pre ++ declaredBy p.slots s, by rw [hpre, hs.visible, List.append_assoc]⟩

/-- After a statement the visible variables are those of the context after it. -/
theorem StmtCode.agrees {p q : Point} {s : Stmt} {b : Block} {Γ : Ctx}
    (h : StmtCode M m strings returnType p s q) (hok : StmtOk fs returnType (b :: Γ) s)
    (hag : Agrees p.visible (b :: Γ)) : Agrees q.visible (after (b :: Γ) s) := by
  rw [h.visible]
  cases s with
  | decl _ x ty init =>
    have hnone : b.lookup x = none := by simpa [Ctx.isFresh] using hok.2.1
    rw [after, Ctx.declare, hnone]
    exact hag.cons x (.local p.slots) ⟨ty, init.isSome⟩
  | assign _ x _ _ => exact hag.le (Ctx.le_assign x _)
  | ifElse _ _ body other =>
    exact hag.le (Ctx.le_both (le_tail_afterAll _ body) (le_tail_afterAll _ other)).1
  | doWhile _ body _ | block _ body => exact hag.le (le_tail_afterAll _ body)
  | expr _ _ | assignElement _ _ _ _ _ | ifThen _ _ _ | «while» _ _ _ | ret _ _ => exact hag

theorem StmtsCode.agrees {ss : List Stmt} :
    ∀ {p q : Point} {b : Block} {Γ : Ctx}, StmtsCode M m strings returnType p ss q →
      StmtsOk fs returnType (b :: Γ) ss → Agrees p.visible (b :: Γ) →
      Agrees q.visible (afterAll (b :: Γ) ss) := by
  induction ss with
  | nil =>
    intro p q b Γ h _ hag
    rw [show q = p from h]
    exact hag
  | cons s ss ih =>
    rintro p q b Γ ⟨e, hs, hss⟩ ⟨hok, hoks⟩ hag
    have hage := hs.agrees hok hag
    obtain ⟨b', Γ', heq, _⟩ := after_cons b Γ s
    rw [heq] at hage hoks
    rw [afterAll, heq]
    exact ih hss hoks hage

/-! ### Slots along the code of a statement -/

/-- The local slots between two numbers belong to variables with values. -/
def NewSlots (m : Method) (n n' : Nat) : Prop :=
  n ≤ n' ∧ ∀ k, n ≤ k → k < n' → ∃ l, m.locals[k]? = some l ∧ l.ty.isValue = true

theorem NewSlots.refl (m : Method) (n : Nat) : NewSlots m n n :=
  ⟨Nat.le_refl n, fun k h h' => absurd h' (by omega)⟩

theorem NewSlots.trans {n n' n'' : Nat} (h : NewSlots m n n') (h' : NewSlots m n' n'') :
    NewSlots m n n'' := by
  refine ⟨Nat.le_trans h.1 h'.1, fun k hk hk' => ?_⟩
  by_cases hlt : k < n'
  · exact h.2 k hk hlt
  · exact h'.2 k (by omega) hk'

theorem newSlots_succ {n : Nat} {l : Local} (hl : m.locals[n]? = some l)
    (hv : l.ty.isValue = true) : NewSlots m n (n + 1) := by
  refine ⟨Nat.le_succ n, fun k hk hk' => ?_⟩
  obtain rfl : k = n := by omega
  exact ⟨l, hl, hv⟩

mutual

theorem StmtCode.newSlots {p q : Point} {Γ : Ctx} :
    ∀ {s : Stmt}, StmtCode M m strings returnType p s q → StmtOk fs returnType Γ s →
      NewSlots m p.slots q.slots
  | .expr _ e, h, _ => by
    obtain ⟨_, _, _, _, _, rfl⟩ := h
    exact .refl m _
  | .decl _ x ty none, h, hok => by
    obtain ⟨hl, rfl⟩ := h
    exact newSlots_succ hl hok.1
  | .decl _ x ty (some e), h, hok => by
    obtain ⟨_, _, hl, _, rfl⟩ := h
    exact newSlots_succ hl hok.1
  | .assign _ x _ value, h, _ => by
    obtain ⟨_, _, _, _, _, rfl⟩ := h
    exact .refl m _
  | .assignElement _ x is _ value, h, _ => by
    obtain ⟨_, _, _, _, _, _, _, _, _, _, rfl⟩ := h
    exact .refl m _
  | .ifThen _ cond body, h, hok => by
    obtain ⟨_, _, _, e, _, _, _, _, hb, _, rfl⟩ := h
    have hslots := StmtsCode.newSlots hb hok.2
    exact hslots
  | .ifElse _ cond body other, h, hok => by
    obtain ⟨_, _, _, e, e', _, _, ho, _, _, hb, _, rfl⟩ := h
    have hother := StmtsCode.newSlots ho hok.2.2
    have hbody := StmtsCode.newSlots hb hok.2.1
    exact hother.trans hbody
  | .while _ cond body, h, hok => by
    obtain ⟨_, _, _, _, e, _, _, _, _, _, hb, _, _, rfl⟩ := h
    have hslots := StmtsCode.newSlots hb hok.2
    exact hslots
  | .doWhile _ body cond, h, hok => by
    obtain ⟨_, _, _, e, _, _, hb, _, _, _, _, rfl⟩ := h
    have hslots := StmtsCode.newSlots hb hok.1
    exact hslots
  | .ret _ none, h, _ => by
    obtain ⟨_, rfl⟩ := h
    exact .refl m _
  | .ret _ (some e), h, _ => by
    unfold StmtCode at h
    split at h
    · obtain ⟨_, _, _, rfl⟩ := h
      exact .refl m _
    · obtain ⟨_, _, _, _, _, _, rfl⟩ := h
      exact .refl m _
  | .block _ body, h, hok => by
    obtain ⟨e, hb, rfl⟩ := h
    have hslots := StmtsCode.newSlots hb hok
    exact hslots

theorem StmtsCode.newSlots {p q : Point} {Γ : Ctx} :
    ∀ {ss : List Stmt}, StmtsCode M m strings returnType p ss q → StmtsOk fs returnType Γ ss →
      NewSlots m p.slots q.slots
  | [], h, _ => by
    rw [show q = p from h]
    exact .refl m _
  | s :: ss, h, hok => by
    obtain ⟨e, hs, hss⟩ := h
    exact (StmtCode.newSlots hs hok.1).trans (StmtsCode.newSlots hss hok.2)

end

theorem SlotOk.mono {n n' : Nat} {b : Binding} (h : SlotOk m n b) (hn : n ≤ n') :
    SlotOk m n' b := by
  unfold SlotOk at h ⊢
  split
  · next hs =>
    rw [hs] at h
    exact h
  · next hs =>
    rw [hs] at h
    exact ⟨Nat.lt_of_lt_of_le h.1 hn, h.2⟩

theorem Housed.lookup {p : Point} (h : Housed m p) {x : String} {y : Binding}
    (hy : p.visible.lookup x = some y) : SlotOk m p.slots y := by
  obtain ⟨l, r, hl, _⟩ := List.lookup_eq_some_iff.mp hy
  exact h (x, y) (by simp [hl])

theorem StmtCode.housed {p q : Point} {s : Stmt} {Γ : Ctx}
    (h : StmtCode M m strings returnType p s q) (hok : StmtOk fs returnType Γ s)
    (hh : Housed m p) : Housed m q := by
  obtain ⟨hle, _⟩ := h.newSlots hok
  have hold : ∀ x ∈ p.visible, SlotOk m q.slots x.2 := fun x hx => (hh x hx).mono hle
  have hvis := h.visible
  unfold Housed
  rw [hvis]
  cases s with
  | decl _ x ty init =>
    rw [declaredBy, List.singleton_append]
    refine List.forall_mem_cons.mpr ⟨?_, hold⟩
    cases init with
    | none =>
      obtain ⟨hl, rfl⟩ := h
      exact ⟨Nat.lt_succ_self _, x, hl⟩
    | some e =>
      obtain ⟨_, _, hl, _, rfl⟩ := h
      exact ⟨Nat.lt_succ_self _, x, hl⟩
  | _ => exact hold

end

end Quill.Lowering
