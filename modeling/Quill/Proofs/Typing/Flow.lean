import Mathlib.Data.List.Forall2
import Quill.Tree.Basic

/-! # Variables along the paths of a body

A context lists the blocks around a point of a body, the innermost first, with the variables that
each block has declared so far.  Of every variable it says the type and whether the variable has
been assigned on every path to the point.

`after` follows a statement: a declaration adds a variable to the innermost block, an assignment
marks one as assigned, what both branches of an `if` assign is assigned after it, and so is what
a block or the body of a `do … while` assigns.  A `while` and an `if` without `else` may run
nothing of their bodies, so nothing of them is kept.  `Stmt.returns` tells whether every path
through a statement returns. -/

namespace Quill.Typing

/-- What is known of a variable at a point of a body. -/
structure Var where
  ty : Ty
  /-- It has been assigned on every path to the point. -/
  assigned : Bool
  deriving DecidableEq, Repr, Inhabited

/-- The variables that a block has declared, the newest first. -/
abbrev Block := List (String × Var)

/-- The blocks around a point, the innermost first. -/
abbrev Ctx := List Block

/-- The block with the variable of a name marked as assigned. -/
def Block.assign (x : String) : Block → Block
  | [] => []
  | (y, v) :: rest =>
    if x == y then (y, { v with assigned := true }) :: rest else (y, v) :: Block.assign x rest

/-- What is assigned in each of two blocks with the same variables. -/
def Block.both (b c : Block) : Block :=
  List.zipWith (fun p q => (p.1, { p.2 with assigned := p.2.assigned && q.2.assigned })) b c

/-- The second block has the variables of the first, and at least as many are assigned. -/
def Block.Le (b c : Block) : Prop :=
  List.Forall₂ (fun p q =>
    p.1 = q.1 ∧ p.2.ty = q.2.ty ∧ (p.2.assigned = true → q.2.assigned = true)) b c

namespace Ctx

/-- The variable that a name means: that of the innermost block that declares one. -/
def find? (Γ : Ctx) (x : String) : Option Var := Γ.findSome? (·.lookup x)

/-- The context with the variable that a name means marked as assigned. -/
def assign (x : String) : Ctx → Ctx
  | [] => []
  | b :: rest =>
    if (b.lookup x).isSome then Block.assign x b :: rest else b :: assign x rest

/-- The context with a variable added to the innermost block, unless the block has one of the
name already. -/
def declare (x : String) (v : Var) : Ctx → Ctx
  | [] => []
  | b :: rest => if (b.lookup x).isSome then b :: rest else ((x, v) :: b) :: rest

/-- The innermost block has no variable of the name. -/
def isFresh (x : String) : Ctx → Bool
  | [] => false
  | b :: _ => (b.lookup x).isNone

/-- What is assigned in each of two contexts with the same variables. -/
def both (Γ Δ : Ctx) : Ctx := List.zipWith Block.both Γ Δ

/-- The types of all variables have values. -/
def Valued (Γ : Ctx) : Prop := ∀ b ∈ Γ, ∀ p ∈ b, p.2.ty.isValue = true

/-- The second context has the variables of the first, and at least as many are assigned. -/
def Le (Γ Δ : Ctx) : Prop := List.Forall₂ Block.Le Γ Δ

end Ctx

mutual

def after (Γ : Ctx) : Stmt → Ctx
  | .decl _ x ty init => Γ.declare x ⟨ty, init.isSome⟩
  | .assign _ x _ _ => Γ.assign x
  | .ifElse _ _ body other =>
    Ctx.both (afterAll ([] :: Γ) body).tail (afterAll ([] :: Γ) other).tail
  | .doWhile _ body _ | .block _ body => (afterAll ([] :: Γ) body).tail
  | .expr _ _ | .assignElement _ _ _ _ _ | .ifThen _ _ _ | .while _ _ _ | .ret _ _ => Γ

/-- The context after a list of statements. -/
def afterAll (Γ : Ctx) : List Stmt → Ctx
  | [] => Γ
  | s :: rest => afterAll (after Γ s) rest

end

end Quill.Typing

namespace Quill

mutual

/-- Every path through the statement returns.  A loop that may run nothing of its body does not
count. -/
def Stmt.returns : Stmt → Bool
  | .ret _ _ => true
  | .ifElse _ _ body other => anyReturns body && anyReturns other
  | .doWhile _ body _ | .block _ body => anyReturns body
  | .expr _ _ | .decl _ _ _ _ | .assign _ _ _ _ | .assignElement _ _ _ _ _ | .ifThen _ _ _
  | .while _ _ _ => false

/-- Every path through one of the statements returns. -/
def anyReturns : List Stmt → Bool
  | [] => false
  | s :: rest => s.returns || anyReturns rest

end

end Quill

namespace Quill.Typing

/-- Two relations that hold place by place hold place by place one after the other. -/
theorem forall₂_comp {α β γ : Type*} {R : α → β → Prop} {S : β → γ → Prop} {T : α → γ → Prop}
    (hT : ∀ a b c, R a b → S b c → T a c) {l : List α} {m : List β} {n : List γ}
    (h : List.Forall₂ R l m) (h' : List.Forall₂ S m n) : List.Forall₂ T l n := by
  induction h generalizing n with
  | nil => cases h'; exact .nil
  | cons hr _ ih =>
    cases h' with
    | cons hs hrest => exact .cons (hT _ _ _ hr hs) (ih hrest)

theorem exists_of_forall₂_right {α β : Type*} {R : α → β → Prop} {l : List α} {m : List β}
    (h : List.Forall₂ R l m) {b : β} (hb : b ∈ m) : ∃ a ∈ l, R a b := by
  induction h with
  | nil => cases hb
  | cons hr _ ih =>
    rcases List.mem_cons.mp hb with rfl | hb
    · exact ⟨_, List.mem_cons_self .., hr⟩
    · obtain ⟨a, ha, hra⟩ := ih hb
      exact ⟨a, List.mem_cons_of_mem _ ha, hra⟩

/-! ### Looking up -/

namespace Ctx

@[simp] theorem find?_nil (x : String) : find? [] x = none := rfl

theorem find?_cons (b : Block) (Γ : Ctx) (x : String) :
    find? (b :: Γ) x = (b.lookup x).or (find? Γ x) := by
  unfold find?
  rw [List.findSome?_cons]
  cases b.lookup x <;> rfl

/-- Looking a name up block by block finds what looking it up in all of them in a row does. -/
theorem lookup_flatten (Γ : Ctx) (x : String) : Γ.flatten.lookup x = Γ.find? x := by
  induction Γ with
  | nil => rfl
  | cons b Γ ih => rw [List.flatten_cons, List.lookup_append, ih, find?_cons]

theorem assign_eq_self {Γ : Ctx} {x : String} (h : Γ.find? x = none) : Γ.assign x = Γ := by
  induction Γ with
  | nil => rfl
  | cons b Γ ih =>
    rw [find?_cons, Option.or_eq_none_iff] at h
    rw [assign, h.1, ih h.2]
    rfl

end Ctx

/-! ### The order of contexts -/

namespace Block

theorem Le.refl (b : Block) : Le b b := List.forall₂_same.mpr fun _ _ => ⟨rfl, rfl, id⟩

theorem Le.trans {b c d : Block} (h : Le b c) (h' : Le c d) : Le b d :=
  forall₂_comp (fun _ _ _ hp hp' =>
    ⟨hp.1.trans hp'.1, hp.2.1.trans hp'.2.1, fun ha => hp'.2.2 (hp.2.2 ha)⟩) h h'

theorem le_assign (x : String) (b : Block) : Le b (assign x b) := by
  induction b with
  | nil => exact .nil
  | cons p b ih =>
    unfold assign
    split
    · exact .cons ⟨rfl, rfl, fun _ => rfl⟩ (Le.refl b)
    · exact .cons ⟨rfl, rfl, id⟩ ih

/-- What two blocks both assign lies between what was assigned before and each of them. -/
theorem le_both {b c d : Block} (h : Le b c) (h' : Le b d) :
    Le b (both c d) ∧ Le (both c d) c ∧ Le (both c d) d := by
  induction h generalizing d with
  | nil => cases h'; exact ⟨.nil, .nil, .nil⟩
  | cons hp _ ih =>
    cases h' with
    | cons hp' hrest' =>
      obtain ⟨hb, hc, hd⟩ := ih hrest'
      refine ⟨.cons ⟨hp.1, hp.2.1, fun ha => ?_⟩ hb, .cons ⟨rfl, rfl, fun ha => ?_⟩ hc,
        .cons ⟨hp.1.symm.trans hp'.1, hp.2.1.symm.trans hp'.2.1, fun ha => ?_⟩ hd⟩
      · exact Bool.and_eq_true_iff.mpr ⟨hp.2.2 ha, hp'.2.2 ha⟩
      · exact (Bool.and_eq_true_iff.mp ha).1
      · exact (Bool.and_eq_true_iff.mp ha).2

end Block

namespace Ctx

theorem Le.refl (Γ : Ctx) : Le Γ Γ := List.forall₂_same.mpr fun b _ => Block.Le.refl b

theorem Le.trans {Γ Δ Θ : Ctx} (h : Le Γ Δ) (h' : Le Δ Θ) : Le Γ Θ :=
  forall₂_comp (fun _ _ _ hb hb' => hb.trans hb') h h'

theorem le_assign (x : String) (Γ : Ctx) : Le Γ (assign x Γ) := by
  induction Γ with
  | nil => exact .nil
  | cons b Γ ih =>
    unfold assign
    split
    · exact .cons (Block.le_assign x b) (Le.refl Γ)
    · exact .cons (Block.Le.refl b) ih

theorem le_both {Γ Δ Θ : Ctx} (h : Le Γ Δ) (h' : Le Γ Θ) :
    Le Γ (both Δ Θ) ∧ Le (both Δ Θ) Δ ∧ Le (both Δ Θ) Θ := by
  induction h generalizing Θ with
  | nil => cases h'; exact ⟨.nil, .nil, .nil⟩
  | cons hb _ ih =>
    cases h' with
    | cons hb' hrest' =>
      obtain ⟨h₀, h₁, h₂⟩ := Block.le_both hb hb'
      obtain ⟨hΓ, hΔ, hΘ⟩ := ih hrest'
      exact ⟨.cons h₀ hΓ, .cons h₁ hΔ, .cons h₂ hΘ⟩

theorem Le.flatten {Γ Δ : Ctx} (h : Le Γ Δ) : Block.Le Γ.flatten Δ.flatten := by
  induction h with
  | nil => exact .nil
  | cons hb _ ih =>
    rw [List.flatten_cons, List.flatten_cons]
    exact List.rel_append hb ih

theorem Le.valued {Γ Δ : Ctx} (h : Le Γ Δ) (hΓ : Γ.Valued) : Δ.Valued := by
  intro c hc q hq
  obtain ⟨b, hb, hbc⟩ := exists_of_forall₂_right h hc
  obtain ⟨p, hp, _, hty, _⟩ := exists_of_forall₂_right hbc hq
  rw [← hty]
  exact hΓ b hb p hp

end Ctx

/-! ### The blocks around a statement

A statement adds variables to its own block only; around it nothing is forgotten. -/

mutual

theorem after_cons (b : Block) (Γ : Ctx) :
    ∀ s : Stmt, ∃ b' Γ', after (b :: Γ) s = b' :: Γ' ∧ Ctx.Le Γ Γ'
  | .decl _ x ty init => by
    simp only [after, Ctx.declare]
    split
    · exact ⟨_, _, rfl, Ctx.Le.refl Γ⟩
    · exact ⟨_, _, rfl, Ctx.Le.refl Γ⟩
  | .assign _ x _ _ => by
    simp only [after, Ctx.assign]
    split
    · exact ⟨_, _, rfl, Ctx.Le.refl Γ⟩
    · exact ⟨_, _, rfl, Ctx.le_assign x Γ⟩
  | .ifElse _ _ body other => by
    obtain ⟨_, Δ, hΔ, hle⟩ := afterAll_cons [] (b :: Γ) body
    obtain ⟨_, Θ, hΘ, hle'⟩ := afterAll_cons [] (b :: Γ) other
    obtain ⟨hΓ, _, _⟩ := Ctx.le_both hle hle'
    unfold after
    rw [hΔ, hΘ, List.tail_cons, List.tail_cons]
    obtain ⟨b', Γ', _, hrest, heq⟩ := List.forall₂_cons_left_iff.mp hΓ
    exact ⟨b', Γ', heq, hrest⟩
  | .doWhile _ body _ | .block _ body => by
    obtain ⟨_, Δ, hΔ, hle⟩ := afterAll_cons [] (b :: Γ) body
    unfold after
    rw [hΔ, List.tail_cons]
    cases hle with
    | cons _ hrest => exact ⟨_, _, rfl, hrest⟩
  | .expr _ _ | .assignElement _ _ _ _ _ | .ifThen _ _ _ | .while _ _ _ | .ret _ _ => by
    unfold after
    exact ⟨_, _, rfl, Ctx.Le.refl Γ⟩

theorem afterAll_cons (b : Block) (Γ : Ctx) :
    ∀ ss : List Stmt, ∃ b' Γ', afterAll (b :: Γ) ss = b' :: Γ' ∧ Ctx.Le Γ Γ'
  | [] => ⟨b, Γ, rfl, Ctx.Le.refl Γ⟩
  | s :: rest => by
    obtain ⟨b', Δ, hΔ, hle⟩ := after_cons b Γ s
    obtain ⟨b'', Θ, hΘ, hle'⟩ := afterAll_cons b' Δ rest
    unfold afterAll
    rw [hΔ]
    exact ⟨b'', Θ, hΘ, hle.trans hle'⟩

end

/-- A block leaves the variables around it, with at least as many assigned. -/
theorem le_tail_afterAll (Γ : Ctx) (ss : List Stmt) : Ctx.Le Γ (afterAll ([] :: Γ) ss).tail := by
  obtain ⟨_, Δ, hΔ, hle⟩ := afterAll_cons [] Γ ss
  rw [hΔ]
  exact hle

end Quill.Typing
