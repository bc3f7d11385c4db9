import Quill.Proofs.Lowering.Visible
import Quill.Proofs.Meaning.Simulates

/-! # Variables of the evaluation and of a frame

The variables that an evaluation knows by name are in the slots of a frame (`Holds`), and they are
those of the context of the typing rules, with values of their types (`EnvOk`).  A variable that
has no value yet may be in a slot with any value: an evaluation never reads it.  No two variables
that are visible at a point share a slot (`Apart`), so to assign one is to store in its slot. -/

namespace Quill.Meaning

open Code Machine Typing
open Lowering (Agrees Binding Housed Point Slot SlotOk StmtCode Visible lookup_of_forall₂)

def slotValue? (f : Frame) : Slot → Option Value
  | .arg k => f.args[k]?
  | .local k => f.locals[k]?

/-- The frame with another value in a slot. -/
def storeAt (f : Frame) (v : Value) : Slot → Frame
  | .arg k => { f with args := f.args.setIfInBounds k v }
  | .local k => { f with locals := f.locals.setIfInBounds k v }

/-- A variable of an evaluation that has a value has it in its slot. -/
def Held (f : Frame) (x : String × Binding) (c : String × Cell) : Prop :=
  x.1 = c.1 ∧ x.2.ty = c.2.ty ∧ ∀ v, c.2.value = some v → slotValue? f x.2.slot = some v

/-- The variables of an evaluation are in the slots of a frame. -/
def Holds (f : Frame) (visible : Visible) (env : Env) : Prop := List.Forall₂ (Held f) visible env

/-- What a context says of a variable is true of it. -/
def Known (as : Arrays) (x : String × Var) (c : String × Cell) : Prop :=
  x.1 = c.1 ∧ x.2.ty = c.2.ty ∧ (x.2.assigned = true → c.2.value.isSome = true) ∧
    ∀ v, c.2.value = some v → HasTy as v c.2.ty

/-- The variables of an evaluation are those of a context. -/
def EnvOk (as : Arrays) (Γ : Ctx) (env : Env) : Prop := List.Forall₂ (Known as) Γ.flatten env

/-- No two visible variables share a slot. -/
def Apart (visible : Visible) : Prop := (visible.map (·.2.slot)).Nodup

/-- The frame has as many arguments and local variables as its method. -/
structure Sized (m : Method) (f : Frame) : Prop where
  args : f.args.size = m.params.length
  locals : f.locals.size = m.locals.size

/-! ### Slots -/

section

variable {m : Method} {f : Frame} {v : Value} {s s' : Slot}

theorem slotValue?_storeAt_ne (hne : s ≠ s') :
    slotValue? (storeAt f v s) s' = slotValue? f s' := by
  cases s with
  | arg k =>
    cases s' with
    | arg k' =>
      have hk : k ≠ k' := fun h => hne (congrArg Slot.arg h)
      exact Array.getElem?_setIfInBounds_ne hk
    | «local» k' => rfl
  | «local» k =>
    cases s' with
    | arg k' => rfl
    | «local» k' =>
      have hk : k ≠ k' := fun h => hne (congrArg Slot.local h)
      exact Array.getElem?_setIfInBounds_ne hk

theorem Sized.lt_size (h : Sized m f) {n : Nat} {y : Binding} (hy : SlotOk m n y) :
    match y.slot with
    | .arg k => k < f.args.size
    | .local k => k < f.locals.size := by
  unfold SlotOk at hy
  split
  · next hs =>
    rw [hs] at hy
    rw [h.args]
    exact (List.getElem?_eq_some_iff.mp hy).1
  · next hs =>
    rw [hs] at hy
    obtain ⟨_, x, hx⟩ := hy
    rw [h.locals]
    exact (Array.getElem?_eq_some_iff.mp hx).1

theorem slotValue?_storeAt_self (h : Sized m f) {n : Nat} {y : Binding} (hy : SlotOk m n y) :
    slotValue? (storeAt f v y.slot) y.slot = some v := by
  have hlt := h.lt_size hy
  cases hs : y.slot with
  | arg k =>
    rw [hs] at hlt
    exact Array.getElem?_setIfInBounds_self_of_lt hlt
  | «local» k =>
    rw [hs] at hlt
    exact Array.getElem?_setIfInBounds_self_of_lt hlt

theorem Sized.store (h : Sized m f) (v : Value) (s : Slot) : Sized m (storeAt f v s) := by
  cases s with
  | arg k => exact ⟨(Array.size_setIfInBounds ..).trans h.args, h.locals⟩
  | «local» k => exact ⟨h.args, (Array.size_setIfInBounds ..).trans h.locals⟩

end

/-! ### What a frame holds -/

section

variable {m : Method} {f : Frame} {visible : Visible} {env : Env}

theorem Holds.lookup (h : Holds f visible env) {x : String} {y : Binding}
    (hy : visible.lookup x = some y) :
    ∃ c, env.lookup x = some c ∧ y.ty = c.ty ∧
      ∀ v, c.value = some v → slotValue? f y.slot = some v :=
  lookup_of_forall₂ (R := fun _ (y : Binding) (c : Cell) => y.ty = c.ty ∧
    ∀ v, c.value = some v → slotValue? f y.slot = some v) h hy

theorem Holds.store (h : Holds f visible env) (v : Value) {s : Slot}
    (hs : ∀ x ∈ visible, s ≠ x.2.slot) : Holds (storeAt f v s) visible env := by
  induction h with
  | nil => exact .nil
  | cons hx _ ih =>
    obtain ⟨hne, hrest⟩ := List.forall_mem_cons.mp hs
    refine .cons ⟨hx.1, hx.2.1, fun u hu => ?_⟩ (ih hrest)
    rw [slotValue?_storeAt_ne hne]
    exact hx.2.2 u hu

theorem Holds.assign (h : Holds f visible env) (hf : Sized m f) {n : Nat}
    (hslots : ∀ x ∈ visible, SlotOk m n x.2) (hd : Apart visible) {x : String} {y : Binding}
    (hy : visible.lookup x = some y) (v : Value) :
    Holds (storeAt f v y.slot) visible (env.assign x v) := by
  induction h with
  | nil => exact .nil
  | @cons p c visible env hpc hrest ih =>
    obtain ⟨hp, htail⟩ := List.forall_mem_cons.mp hslots
    obtain ⟨hnot, hnodup⟩ := List.nodup_cons.mp hd
    obtain ⟨z, cell⟩ := c
    have hname : p.1 = z := hpc.1
    rw [List.lookup_cons] at hy
    rw [Env.assign, ← hname]
    cases hx : x == p.1 with
    | true =>
      rw [hx] at hy
      obtain rfl : p.2 = y := Option.some.inj hy
      refine .cons ⟨rfl, hpc.2.1, fun u hu => ?_⟩ (Holds.store hrest v fun q hq heq => ?_)
      · obtain rfl : v = u := Option.some.inj hu
        exact slotValue?_storeAt_self hf hp
      · exact hnot (List.mem_map.mpr ⟨q, hq, heq.symm⟩)
    | false =>
      rw [hx] at hy
      have hmem : (x, y) ∈ visible := by
        obtain ⟨l, r, hl, _⟩ := List.lookup_eq_some_iff.mp hy
        simp [hl]
      have hne : y.slot ≠ p.2.slot := fun heq => hnot (List.mem_map.mpr ⟨_, hmem, heq⟩)
      refine .cons ⟨rfl, hpc.2.1, fun u hu => ?_⟩ (ih htail hnodup hy)
      rw [slotValue?_storeAt_ne hne]
      exact hpc.2.2 u hu

theorem Holds.declare (h : Holds f visible env) (hf : Sized m f) {n : Nat} {x : String} {s : Slot}
    {ty : Ty} (hs : SlotOk m n ⟨s, ty⟩) (hfresh : ∀ x ∈ visible, s ≠ x.2.slot) (v : Value) :
    Holds (storeAt f v s) ((x, ⟨s, ty⟩) :: visible) ((x, ⟨ty, some v⟩) :: env) := by
  refine .cons ⟨rfl, rfl, fun u hu => ?_⟩ (h.store v hfresh)
  obtain rfl : v = u := Option.some.inj hu
  exact slotValue?_storeAt_self hf hs

theorem Holds.declare_none (h : Holds f visible env) (x : String) (y : Binding) :
    Holds f ((x, y) :: visible) ((x, ⟨y.ty, none⟩) :: env) :=
  .cons ⟨rfl, rfl, fun _ hu => nomatch hu⟩ h

theorem Holds.leaveBlock {before : Visible} {outer : Env} (h : Holds f visible env)
    {pre : Visible} (hpre : visible = pre ++ before) (hlen : before.length = outer.length) :
    Holds f before (env.drop (env.length - outer.length)) := by
  have hall := h.length_eq
  rw [hpre, List.length_append] at hall
  have hdrop : env.length - outer.length = pre.length := by omega
  rw [hdrop]
  subst hpre
  have hrest := List.forall₂_drop pre.length h
  rwa [List.drop_left] at hrest

theorem slot_fresh {p : Point} (h : Housed m p) : ∀ x ∈ p.visible, Slot.local p.slots ≠ x.2.slot := by
  intro x hx heq
  have hslot := h x hx
  rw [SlotOk, ← heq] at hslot
  exact Nat.lt_irrefl _ hslot.1

theorem apart_after {M : Lowering.Methods} {strings : Array String} {returnType : Ty} {p q : Point}
    {s : Stmt} (hc : StmtCode M m strings returnType p s q) (hh : Housed m p)
    (ha : Apart p.visible) : Apart q.visible := by
  rw [hc.visible]
  cases s with
  | decl _ x ty init =>
    refine List.nodup_cons.mpr ⟨fun hmem => ?_, ha⟩
    obtain ⟨y, hy, hslot⟩ := List.mem_map.mp hmem
    exact slot_fresh hh y hy hslot.symm
  | _ => exact ha

end

/-! ### What a context says -/

section

variable {as as' : Arrays} {Γ Δ : Ctx} {env : Env}

theorem EnvOk.lookup (h : EnvOk as Γ env) {x : String} {v : Var} (hv : Γ.find? x = some v) :
    ∃ c, env.lookup x = some c ∧ v.ty = c.ty ∧ (v.assigned = true → c.value.isSome = true) ∧
      ∀ u, c.value = some u → HasTy as u c.ty := by
  rw [← Ctx.lookup_flatten] at hv
  exact lookup_of_forall₂ (R := fun _ (v : Var) (c : Cell) => v.ty = c.ty ∧
    (v.assigned = true → c.value.isSome = true) ∧ ∀ u, c.value = some u → HasTy as u c.ty) h hv

theorem EnvOk.read (h : EnvOk as Γ env) {x : String} {t : Ty} (hr : ReadOk Γ x t) :
    ∃ c v, env.lookup x = some c ∧ c.ty = t ∧ c.value = some v ∧ HasTy as v t := by
  obtain ⟨var, hvar, hassigned, rfl⟩ := hr
  obtain ⟨c, hc, hty, hsome, hhas⟩ := h.lookup hvar
  obtain ⟨v, hv⟩ := Option.isSome_iff_exists.mp (hsome hassigned)
  exact ⟨c, v, hc, hty.symm, hv, hty ▸ hhas v hv⟩

theorem EnvOk.mono (h : EnvOk as Γ env) (hk : Keeps as as') : EnvOk as' Γ env :=
  h.imp fun _ _ hx => ⟨hx.1, hx.2.1, hx.2.2.1, fun v hv => (hx.2.2.2 v hv).mono hk⟩

theorem EnvOk.le (h : EnvOk as Δ env) (hle : Ctx.Le Γ Δ) : EnvOk as Γ env :=
  forall₂_comp (fun _ _ _ hx hc => ⟨hx.1.trans hc.1, hx.2.1.trans hc.2.1,
    fun ha => hc.2.2.1 (hx.2.2 ha), hc.2.2.2⟩) hle.flatten h

theorem EnvOk.declare {b : Block} (h : EnvOk as (b :: Γ) env) {x : String} {ty : Ty}
    (hfresh : b.lookup x = none) (v : Option Value) (hv : ∀ u, v = some u → HasTy as u ty) :
    EnvOk as (Ctx.declare x ⟨ty, v.isSome⟩ (b :: Γ)) ((x, ⟨ty, v⟩) :: env) := by
  rw [Ctx.declare, hfresh]
  exact .cons ⟨rfl, rfl, id, hv⟩ h

theorem EnvOk.assign (h : EnvOk as Γ env) {x : String} {var : Var} (hvar : Γ.find? x = some var)
    {v : Value} (hv : HasTy as v var.ty) : EnvOk as (Γ.assign x) (env.assign x v) := by
  rw [← Ctx.lookup_flatten] at hvar
  unfold EnvOk at h ⊢
  rw [Lowering.flatten_assign]
  generalize Γ.flatten = vars at h hvar
  induction h with
  | nil => exact .nil
  | @cons p c vars env hpc hrest ih =>
    obtain ⟨y, u⟩ := p
    obtain ⟨z, cell⟩ := c
    obtain rfl : y = z := hpc.1
    rw [List.lookup_cons] at hvar
    rw [Block.assign, Env.assign]
    cases hx : x == y with
    | true =>
      rw [hx] at hvar
      obtain rfl : u = var := Option.some.inj hvar
      refine .cons ⟨rfl, hpc.2.1, fun _ => rfl, fun u' hu' => ?_⟩ hrest
      obtain rfl : v = u' := Option.some.inj hu'
      have hty : u.ty = cell.ty := hpc.2.1
      exact hty ▸ hv
    | false =>
      rw [hx] at hvar
      exact .cons hpc (ih hvar)

/-- At the end of a block the context is that of the variables around it. -/
theorem EnvOk.leaveBlock {b : Block} {outer : Env} (h : EnvOk as (b :: Δ) env)
    (hlen : Δ.flatten.length = outer.length) :
    EnvOk as Δ (env.drop (env.length - outer.length)) := by
  unfold EnvOk at h ⊢
  rw [List.flatten_cons] at h
  have hall := h.length_eq
  rw [List.length_append] at hall
  have hdrop : env.length - outer.length = b.length := by omega
  rw [hdrop]
  have hrest := List.forall₂_drop b.length h
  rwa [List.drop_left] at hrest

end

end Quill.Meaning
