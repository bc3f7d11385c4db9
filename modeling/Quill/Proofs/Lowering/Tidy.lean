import Quill.Proofs.Lowering.Choices
import Quill.Proofs.Lowering.Growth

/-! # Drafts are tidy

What holds of a draft at every moment of lowering: its instructions name slots, labels, strings,
methods and host routines that are there, the positions of its marked labels are those of their
markers, and no string is in the pool twice.  `Tidy` says so; every way to extend a draft keeps it,
and so does the lowering of every tree, whether it was checked or not. -/

namespace Quill.Lowering

open Code

/-! ### What instructions can name -/

/-- How many things there are that the instructions of a method can name. -/
structure Bounds where
  args : Nat
  locals : Nat
  labels : Nat
  strings : Nat
  routines : Nat

structure Bounds.Le (b b' : Bounds) : Prop where
  args : b.args ≤ b'.args
  locals : b.locals ≤ b'.locals
  labels : b.labels ≤ b'.labels
  strings : b.strings ≤ b'.strings
  routines : b.routines ≤ b'.routines

/-- What the instruction names is there.  A call names a method with code and gives it as many
arguments as it takes. -/
def Formed (b : Bounds) (M : Methods) : Instr → Prop
  | .loadArg slot | .storeArg slot => slot < b.args
  | .loadLocal slot | .storeLocal slot => slot < b.locals
  | .branchCmp _ _ label | .branchIfTrue label | .jump label => label < b.labels
  | .pushStr string => string < b.strings
  | .call method argc => ∃ c, M[method]? = some c ∧ c.host = none ∧ argc = c.arity
  | .callHost routine => routine < b.routines
  | _ => True

theorem Formed.mono {b b' : Bounds} {M : Methods} {i : Instr} (h : Formed b M i) (hle : b.Le b') :
    Formed b' M i := by
  cases i with
  | loadArg | storeArg => exact Nat.lt_of_lt_of_le h hle.args
  | loadLocal | storeLocal => exact Nat.lt_of_lt_of_le h hle.locals
  | branchCmp | branchIfTrue | jump => exact Nat.lt_of_lt_of_le h hle.labels
  | pushStr => exact Nat.lt_of_lt_of_le h hle.strings
  | callHost => exact Nat.lt_of_lt_of_le h hle.routines
  | call => exact h
  | _ => trivial

theorem Within.size_le {α : Type} {xs ys : Array α} (h : Within xs ys) : xs.size ≤ ys.size := by
  by_cases hpos : 0 < xs.size
  · have hlast : xs[xs.size - 1]? = some xs[xs.size - 1] := Array.getElem?_eq_getElem (by omega)
    have hlt := (Array.getElem?_eq_some_iff.mp (h _ _ hlast)).1
    omega
  · omega

/-! ### Tidy drafts -/

/-- What the instructions of the draft can name. -/
def State.bounds (st : State) (routines : Nat) : Bounds :=
  ⟨st.draft.params.length, st.draft.locals.size, st.draft.labels.size, st.pool.size, routines⟩

/-- Everything that the draft names is there, and labels are where their markers are. -/
structure Tidy (M : Methods) (routines : Nat) (st : State) : Prop where
  instrs : ∀ (p : Nat) i, st.draft.code[p]? = some i → Formed (st.bounds routines) M i
  labels : ∀ l p : Nat,
    st.draft.labels[l]? = some (some p) ↔ st.draft.code[p]? = some (.label l)
  pool : st.pool.toList.Nodup
  visible : ∀ x y, (x, y) ∈ st.visible → Formed (st.bounds routines) M y.slot.load

section

variable {M : Methods} {routines : Nat} {st cur : State}

theorem Tidy.emit (h : Tidy M routines st) {i : Instr} (hi : Formed (st.bounds routines) M i)
    (hplain : isMarker i = false) : Tidy M routines (st.emit i) := by
  refine ⟨fun p j hj => ?_, Draft.Aligned.emit h.labels hplain, h.pool, h.visible⟩
  have hj' : (st.draft.code.push i)[p]? = some j := hj
  rw [Array.getElem?_push] at hj'
  split at hj'
  · cases hj'
    exact hi
  · exact h.instrs p j hj'

theorem Tidy.emitAll {is : List Instr} (his : ∀ i ∈ is, ∀ b : Bounds, b.routines = routines →
    Formed b M i ∧ isMarker i = false) :
    ∀ {st : State}, Tidy M routines st → Tidy M routines (st.emitAll is) := by
  induction is with
  | nil => exact fun h => h
  | cons i is ih =>
    intro st h
    obtain ⟨hi, his⟩ := List.forall_mem_cons.mp his
    obtain ⟨hformed, hplain⟩ := hi (st.bounds routines) rfl
    rw [emitAll_cons]
    exact ih his (h.emit hformed hplain)

theorem Tidy.newLabel (h : Tidy M routines st) : Tidy M routines st.newLabel.2 := by
  have hle : (st.bounds routines).Le (st.newLabel.2.bounds routines) := by
    refine ⟨Nat.le_refl _, Nat.le_refl _, ?_, Nat.le_refl _, Nat.le_refl _⟩
    show _ ≤ st.newLabel.2.draft.labels.size
    rw [size_labels_newLabel]
    exact Nat.le_succ _
  exact ⟨fun p i hi => (h.instrs p i hi).mono hle, Draft.Aligned.newLabel h.labels, h.pool,
    fun x y hy => (h.visible x y hy).mono hle⟩

theorem Tidy.mark (h : Tidy M routines st) {l : Nat} (hl : st.draft.labels[l]? = some none) :
    Tidy M routines (st.mark l) := by
  have hbounds : (st.mark l).bounds routines = st.bounds routines := by
    unfold State.bounds
    rw [size_labels_mark]
    rfl
  refine ⟨fun p i hi => ?_, Draft.Aligned.mark h.labels hl, h.pool, ?_⟩
  · have hi' : (st.draft.code.push (.label l))[p]? = some i := hi
    rw [hbounds]
    rw [Array.getElem?_push] at hi'
    split at hi'
    · cases hi'
      trivial
    · exact h.instrs p i hi'
  · rw [hbounds]
    exact h.visible

theorem Tidy.intern (h : Tidy M routines st) (s : String) :
    Tidy M routines (st.intern s).2 ∧ (st.intern s).1 < (st.intern s).2.pool.size := by
  unfold State.intern
  split
  · next id hid =>
    obtain ⟨hlt, _⟩ := Array.findIdx?_eq_some_iff_getElem.mp hid
    exact ⟨h, hlt⟩
  · next hnone =>
    have hle : (st.bounds routines).Le
        (State.bounds { st with pool := st.pool.push s } routines) := by
      refine ⟨Nat.le_refl _, Nat.le_refl _, Nat.le_refl _, ?_, Nat.le_refl _⟩
      show _ ≤ (st.pool.push s).size
      rw [Array.size_push]
      exact Nat.le_succ _
    refine ⟨⟨fun p i hi => (h.instrs p i hi).mono hle, h.labels, ?_,
      fun x y hy => (h.visible x y hy).mono hle⟩, by simp⟩
    rw [Array.findIdx?_eq_none_iff] at hnone
    have hnew : s ∉ st.pool.toList := by
      intro hmem
      simpa using hnone s (Array.mem_toList_iff.mp hmem)
    show (st.pool.push s).toList.Nodup
    rw [Array.toList_push]
    refine List.nodup_append.mpr ⟨h.pool, List.pairwise_singleton .., fun a ha b hb => ?_⟩
    obtain rfl := List.mem_singleton.mp hb
    rintro rfl
    exact hnew ha

theorem Tidy.literal (h : Tidy M routines st) (v : Literal) : Tidy M routines (st.literal v) := by
  cases v with
  | integer v => exact h.emit trivial rfl
  | float bits => exact h.emit trivial rfl
  | boolean b => exact h.emit trivial rfl
  | string s =>
    obtain ⟨ht, hlt⟩ := h.intern s
    exact ht.emit hlt rfl

theorem Tidy.pushTruth (h : Tidy M routines st) (branch : Nat → Instr)
    (hbranch : ∀ (b : Bounds) l, l < b.labels → Formed b M (branch l) ∧ isMarker (branch l) = false)
    (taken : Int64) : Tidy M routines (st.pushTruth branch taken) := by
  have h₀ : WithLabels st st.newLabel.2.newLabel.2.newLabel.2 [st.newLabel.1,
      st.newLabel.2.newLabel.1, st.newLabel.2.newLabel.2.newLabel.1] :=
    (WithLabels.refl st).newLabel.newLabel.newLabel
  have hyes := hbranch (st.newLabel.2.newLabel.2.newLabel.2.bounds routines) st.newLabel.1
    (h₀.pending.lt_size (.head _))
  have hswap := List.Perm.swap st.newLabel.2.newLabel.1 st.newLabel.1
    [st.newLabel.2.newLabel.2.newLabel.1]
  obtain ⟨hfirst, hrest⟩ := List.nodup_cons.mp (hswap.nodup h₀.nodup)
  obtain ⟨hsecond, -⟩ := List.nodup_cons.mp hrest
  have h₁ := (h₀.pending.perm hswap).grows (grows_emit _ (branch st.newLabel.1))
  have h₂ := ((h₁.mark hfirst).grows (grows_emit _ (.pushInt (1 - taken)))).grows
    (grows_emit _ (.jump st.newLabel.2.newLabel.2.newLabel.1))
  have h₃ := (h₂.mark hsecond).grows (grows_emit _ (.pushInt taken))
  have ht₁ := (h.newLabel.newLabel.newLabel.emit hyes.1 hyes.2).mark (h₁.waiting _ (.head _)).2
  have ht₂ := ((ht₁.emit (i := .pushInt (1 - taken)) trivial rfl).emit
    (i := .jump _) (h₂.lt_size (.tail _ (.head _))) rfl).mark (h₂.waiting _ (.head _)).2
  exact (ht₂.emit (i := .pushInt taken) trivial rfl).mark (h₃.waiting _ (.head _)).2

theorem Tidy.restore {waits : Nat → Prop} (h : Tidy M routines cur) (hst : Tidy M routines st)
    (hp : Pending st cur waits) : Tidy M routines (cur.restore st.visible) := by
  have hle : (st.bounds routines).Le (cur.bounds routines) := by
    refine ⟨?_, hp.locals.size_le, hp.size_le, hp.pool.size_le, Nat.le_refl _⟩
    show st.draft.params.length ≤ cur.draft.params.length
    exact Nat.le_of_eq (by rw [hp.head.2.1])
  exact ⟨h.instrs, h.labels, h.pool, fun x y hy => (hst.visible x y hy).mono hle⟩

theorem Tidy.declare {x : String} {ty : Ty} {slot : Nat} {st' : State} (h : Tidy M routines st)
    (hd : st.declare x ty = .ok (slot, st')) :
    Tidy M routines st' ∧ slot < st'.draft.locals.size := by
  unfold State.declare Draft.allocLocal at hd
  dsimp only at hd
  split at hd
  · obtain ⟨rfl, rfl⟩ := Prod.mk.inj (Except.ok.inj hd)
    have hslot : st.draft.locals.size < (st.draft.locals.push ⟨x, ty⟩).size := by simp
    have hle : (st.bounds routines).Le ⟨st.draft.params.length, (st.draft.locals.push ⟨x, ty⟩).size,
        st.draft.labels.size, st.pool.size, routines⟩ :=
      ⟨Nat.le_refl _, Nat.le_of_lt hslot, Nat.le_refl _, Nat.le_refl _, Nat.le_refl _⟩
    refine ⟨⟨fun p i hi => (h.instrs p i hi).mono hle, h.labels, h.pool, fun z y hy => ?_⟩, hslot⟩
    rcases List.mem_cons.mp hy with hy | hy
    · cases hy
      exact hslot
    · exact (h.visible z y hy).mono hle
  · cases hd

/-! ### Variables, operands and calls -/

theorem isMarker_load (slot : Slot) : isMarker slot.load = false := by
  cases slot <;> rfl

theorem isMarker_store (slot : Slot) : isMarker slot.store = false := by
  cases slot <;> rfl

theorem formed_store {b : Bounds} {slot : Slot} (h : Formed b M slot.load) :
    Formed b M slot.store := by
  cases slot with
  | arg s => exact h
  | «local» s => exact h

theorem mem_of_lookup {visible : Visible} {x : String} {y : Binding}
    (h : visible.lookup x = some y) : (x, y) ∈ visible := by
  induction visible with
  | nil => cases h
  | cons v visible ih =>
    obtain ⟨z, b⟩ := v
    rw [List.lookup_cons] at h
    split at h
    · next hz =>
      obtain rfl := eq_of_beq hz
      obtain rfl := Option.some.inj h
      exact List.mem_cons_self ..
    · exact List.mem_cons_of_mem _ (ih h)

theorem Tidy.resolve (h : Tidy M routines st) {x : String} {y : Binding}
    (hy : st.resolve x = .ok y) : Formed (st.bounds routines) M y.slot.load :=
  h.visible x y (mem_of_lookup (resolve_eq_ok hy))

theorem Tidy.operand {ty target : Ty} {st' : State} (h : Tidy M routines st)
    (ho : operand ty target (true, st) = .ok st') : Tidy M routines st' := by
  obtain rfl : _ = st' := Except.ok.inj ho
  split
  · exact h.emit (i := .intToFloat) trivial rfl
  · exact h

theorem Tidy.discarded (h : Tidy M routines st) (leaves : Bool) :
    Tidy M routines (discarded (leaves, st)) := by
  unfold Lowering.discarded
  cases leaves with
  | false => exact h
  | true => exact h.emit (i := .pop) trivial rfl

theorem formed_arithInstr {op : ArithOp} {t : Ty} {i : Instr} (h : arithInstr op t = .ok i)
    (b : Bounds) : Formed b M i ∧ isMarker i = false := by
  rcases arithInstr_cases h with rfl | ⟨n, rfl⟩
  · exact ⟨trivial, rfl⟩
  · exact ⟨trivial, rfl⟩

theorem formed_elementInstr {t : Ty} {count : Nat} {i : Instr} (h : elementInstr t count = .ok i)
    (b : Bounds) : Formed b M i ∧ isMarker i = false := by
  rcases elementInstr_cases h with ⟨-, rfl | rfl⟩ | rfl
  · exact ⟨trivial, rfl⟩
  · exact ⟨trivial, rfl⟩
  · exact ⟨trivial, rfl⟩

/-- The code between two operands and the branch of their comparison names nothing. -/
theorem formed_between {op : Comparison} {l r ty : Ty} {between : List Instr} {n : Numeric}
    (h : comparisonPlan op l r = .ok (ty, between, n)) {i : Instr} (hi : i ∈ between) (b : Bounds) :
    Formed b M i ∧ isMarker i = false := by
  rcases comparisonPlan_between h with rfl | rfl
  · cases hi
  · have hcases : i = .strEq ∨ i = .pushInt 1 := by simpa using hi
    rcases hcases with rfl | rfl
    · exact ⟨trivial, rfl⟩
    · exact ⟨trivial, rfl⟩

/-- The host routines of the methods are there. -/
def Hosted (M : Methods) (routines : Nat) : Prop :=
  ∀ (id : Nat) m h, M[id]? = some m → m.host = some h → h < routines

theorem formed_callPlan (hM : Hosted M routines) {name : String} {args targets : List Ty}
    {code : List Instr} {leaves : Bool} (h : callPlan M name args = .ok (targets, .ok code, leaves))
    {i : Instr} (hi : i ∈ code) {b : Bounds} (hb : b.routines = routines) :
    Formed b M i ∧ isMarker i = false := by
  unfold callPlan at h
  split at h
  · next id hid =>
    obtain ⟨hlt, hsig, _⟩ := Array.findIdx?_eq_some_iff_getElem.mp hid
    have hget : M[id]? = some M[id] := Array.getElem?_eq_getElem hlt
    rw [hget] at h
    dsimp only at h
    simp only [Except.ok.injEq, Prod.mk.injEq] at h
    obtain ⟨_, hcode, _⟩ := h
    cases hhost : M[id].host with
    | some r =>
      rw [hhost] at hcode
      cases hcode
      obtain rfl := List.mem_singleton.mp hi
      refine ⟨?_, rfl⟩
      show r < b.routines
      rw [hb]
      exact hM id _ r hget hhost
    | none =>
      rw [hhost] at hcode
      dsimp only at hcode
      split at hcode
      · cases hcode
        obtain rfl := List.mem_singleton.mp hi
        exact ⟨⟨_, hget, hhost, (of_decide_eq_true hsig).2.symm⟩, rfl⟩
      · cases hcode
  · split at h
    · cases h
    · cases h
    · next htemplate =>
      cases h
      rcases template_cases htemplate with ⟨rfl, -⟩ | ⟨op, rfl, -⟩
      · cases hi
      · obtain rfl := List.mem_singleton.mp hi
        exact ⟨trivial, rfl⟩

end

/-! ### Trees -/

section

variable {M : Methods} {routines : Nat}

mutual

theorem lowerValue_tidy (hM : Hosted M routines) :
    ∀ {e : Expr} {st st' : State} {leaves : Bool}, lowerValue M st e = .ok (leaves, st') →
      Tidy M routines st → Tidy M routines st'
  | .literal n v, st, st', leaves, h, ht => by
    obtain ⟨rfl, rfl⟩ := Prod.mk.inj (Except.ok.inj h)
    exact ht.literal v
  | .name n x, st, st', leaves, h, ht => by
    obtain ⟨y, hy, h⟩ := bind_eq_ok.mp h
    obtain ⟨rfl, rfl⟩ := Prod.mk.inj (Except.ok.inj h)
    exact ht.emit (ht.resolve hy) (isMarker_load y.slot)
  | .arith n op l r, st, st', leaves, h, ht => by
    unfold lowerValue at h
    obtain ⟨i, hi, h⟩ := bind_eq_ok.mp h
    obtain ⟨st₁, st₂, hl, ho, h⟩ := bind_operand_eq_ok h
    obtain ⟨st₃, st₄, hr, ho', h⟩ := bind_operand_eq_ok h
    obtain ⟨rfl, rfl⟩ := Prod.mk.inj (Except.ok.inj h)
    have ht₂ := (lowerValue_tidy hM hl ht).operand ho
    obtain ⟨hformed, hmark⟩ := formed_arithInstr (M := M) hi (st₄.bounds routines)
    exact ((lowerValue_tidy hM hr ht₂).operand ho').emit hformed hmark
  | .compare n op l r, st, st', leaves, h, ht => by
    unfold lowerValue at h
    obtain ⟨⟨ty, between, numeric⟩, hp, h⟩ := bind_eq_ok.mp h
    obtain ⟨st₁, st₂, hl, ho, h⟩ := bind_operand_eq_ok h
    obtain ⟨st₃, st₄, hr, ho', h⟩ := bind_operand_eq_ok h
    obtain ⟨rfl, rfl⟩ := Prod.mk.inj (Except.ok.inj h)
    have ht₂ := (lowerValue_tidy hM hl ht).operand ho
    have ht₄ := (lowerValue_tidy hM hr ht₂).operand ho'
    exact (ht₄.emitAll fun i hi b _ => formed_between hp hi b).pushTruth (.branchCmp op numeric)
      (fun b label hl => ⟨hl, rfl⟩) 1
  | .logic n op l r, st, st', leaves, h, ht => by
    unfold lowerValue at h
    obtain ⟨st₁, st₂, hl, ho, h⟩ := bind_operand_eq_ok h
    obtain ⟨st₃, st₄, hr, ho', h⟩ := bind_operand_eq_ok h
    obtain ⟨rfl, rfl⟩ := Prod.mk.inj (Except.ok.inj h)
    have ht₂ := (lowerValue_tidy hM hl ht).operand ho
    have ht₄ := (lowerValue_tidy hM hr ht₂).operand ho'
    have hop : Formed (st₄.bounds routines) M (logicInstr op) ∧
        isMarker (logicInstr op) = false := by
      cases op <;> exact ⟨trivial, rfl⟩
    exact (ht₄.emit hop.1 hop.2).pushTruth .branchIfTrue (fun b label hl => ⟨hl, rfl⟩) 1
  | .not n x, st, st', leaves, h, ht => by
    unfold lowerValue at h
    obtain ⟨st₁, st₂, hx, ho, h⟩ := bind_operand_eq_ok h
    obtain ⟨rfl, rfl⟩ := Prod.mk.inj (Except.ok.inj h)
    exact ((lowerValue_tidy hM hx ht).operand ho).pushTruth .branchIfTrue
      (fun b label hl => ⟨hl, rfl⟩) 0
  | .index n x is, st, st', leaves, h, ht => by
    unfold lowerValue at h
    obtain ⟨y, hy, h⟩ := bind_eq_ok.mp h
    obtain ⟨st₁, his, h⟩ := bind_eq_ok.mp h
    obtain ⟨i, hi, h⟩ := bind_eq_ok.mp h
    obtain ⟨rfl, rfl⟩ := Prod.mk.inj (Except.ok.inj h)
    have ht₁ := lowerAll_tidy hM his (ht.emit (ht.resolve hy) (isMarker_load y.slot))
    obtain ⟨hformed, hmark⟩ := formed_elementInstr (M := M) hi (st₁.bounds routines)
    exact ht₁.emit hformed hmark
  | .call n f args, st, st', leaves, h, ht => by
    unfold lowerValue at h
    obtain ⟨⟨targets, code, returns⟩, hp, h⟩ := bind_eq_ok.mp h
    obtain ⟨st₁, hargs, h⟩ := bind_eq_ok.mp h
    obtain ⟨is, rfl, h⟩ := bind_eq_ok.mp h
    obtain ⟨rfl, rfl⟩ := Prod.mk.inj (Except.ok.inj h)
    exact (lowerAll_tidy hM hargs ht).emitAll fun i hi b hb => formed_callPlan hM hp hi hb
  | .newArray n e dims, st, st', leaves, h, ht => by
    unfold lowerValue at h
    obtain ⟨st₁, hdims, h⟩ := bind_eq_ok.mp h
    split at h
    · obtain ⟨rfl, rfl⟩ := Prod.mk.inj (Except.ok.inj h)
      exact (lowerAll_tidy hM hdims ht).emit (i := .newArray e dims.length) trivial rfl
    · cases h

theorem lowerAll_tidy (hM : Hosted M routines) :
    ∀ {ts : List Ty} {es : List Expr} {st st' : State}, lowerAll M st ts es = .ok st' →
      Tidy M routines st → Tidy M routines st'
  | [], _, st, st', h, ht => by
    rw [lowerAll] at h
    · exact Except.ok.inj h ▸ ht
    · simp
  | _ :: _, [], st, st', h, ht => by
    rw [lowerAll] at h
    · exact Except.ok.inj h ▸ ht
    · simp
  | t :: ts, e :: es, st, st', h, ht => by
    unfold lowerAll at h
    obtain ⟨st₁, st₂, he, ho, h⟩ := bind_operand_eq_ok h
    exact lowerAll_tidy hM h ((lowerValue_tidy hM he ht).operand ho)

end

theorem lowerAs_tidy (hM : Hosted M routines) {e : Expr} {target : Ty} {st st' : State}
    (h : lowerAs M st e target = .ok st') (ht : Tidy M routines st) : Tidy M routines st' := by
  unfold lowerAs at h
  obtain ⟨⟨leaves, st₁⟩, he, ho⟩ := bind_eq_ok.mp h
  cases leaves with
  | false => cases ho
  | true => exact (lowerValue_tidy hM he ht).operand ho

theorem lowerElement_tidy (hM : Hosted M routines) {st st' : State} {x : String}
    {is : List Expr} {value : Expr} (h : lowerElement M st x is value = .ok st')
    (ht : Tidy M routines st) : Tidy M routines st' := by
  unfold lowerElement at h
  obtain ⟨y, hy, h⟩ := bind_eq_ok.mp h
  cases hty : y.ty with
  | array element rank =>
    rw [hty] at h
    dsimp only at h
    split at h
    · cases h
    · obtain ⟨st₁, his, h⟩ := bind_eq_ok.mp h
      obtain ⟨st₂, hv, h⟩ := bind_eq_ok.mp h
      obtain rfl := Except.ok.inj h
      have ht₁ := lowerAll_tidy hM his (ht.emit (ht.resolve hy) (isMarker_load y.slot))
      have ht₂ := lowerAs_tidy hM hv ht₁
      split
      · exact ht₂.emit trivial rfl
      · exact ht₂.emit trivial rfl
  | _ =>
    rw [hty] at h
    cases h

/-! ### Control structures -/

section

variable {st₀ st₁ st₂ st₃ : State}

theorem Tidy.ifThen {yes stop : Nat} (ht : Tidy M routines st)
    (h₀ : WithLabels st st₀ [yes, stop]) (hc : Grows st₀ st₁) (htc : Tidy M routines st₁)
    (hb : Grows (((st₁.emit (.branchIfTrue yes)).emit (.jump stop)).mark yes) st₂)
    (htb : Tidy M routines (((st₁.emit (.branchIfTrue yes)).emit (.jump stop)).mark yes) →
      Tidy M routines st₂) :
    Tidy M routines ((st₂.restore st.visible).mark stop) := by
  obtain ⟨hfirst, -⟩ := List.nodup_cons.mp h₀.nodup
  have h₁ := h₀.pending.grows hc
  have h₂ := (h₁.grows (grows_emit _ (.branchIfTrue yes))).grows (grows_emit _ (.jump stop))
  have h₃ := (h₂.mark hfirst).grows hb
  have ht₁ := (htc.emit (i := .branchIfTrue yes) (h₁.lt_size (.head _)) rfl).emit
    (i := .jump stop) (h₁.lt_size (.tail _ (.head _))) rfl
  have ht₂ := htb (ht₁.mark (h₂.waiting _ (.head _)).2)
  exact (ht₂.restore ht h₃).mark (h₃.waiting _ (.head _)).2

theorem Tidy.ifElse {yes stop : Nat} (ht : Tidy M routines st)
    (h₀ : WithLabels st st₀ [yes, stop]) (hc : Grows st₀ st₁) (htc : Tidy M routines st₁)
    (ho : Grows (st₁.emit (.branchIfTrue yes)) st₂)
    (hto : Tidy M routines (st₁.emit (.branchIfTrue yes)) → Tidy M routines st₂)
    (hb : Grows (((st₂.restore st.visible).emit (.jump stop)).mark yes) st₃)
    (htb : Tidy M routines (((st₂.restore st.visible).emit (.jump stop)).mark yes) →
      Tidy M routines st₃) :
    Tidy M routines ((st₃.restore st.visible).mark stop) := by
  obtain ⟨hfirst, -⟩ := List.nodup_cons.mp h₀.nodup
  have h₁ := h₀.pending.grows hc
  have h₂ := (h₁.grows (grows_emit _ (.branchIfTrue yes))).grows ho
  have h₃ := (h₂.restore st.visible).grows (grows_emit _ (.jump stop))
  have h₄ := (h₃.mark hfirst).grows hb
  have ht₁ := hto (htc.emit (i := .branchIfTrue yes) (h₁.lt_size (.head _)) rfl)
  have ht₂ := (ht₁.restore ht h₂).emit (i := .jump stop) (h₂.lt_size (.tail _ (.head _))) rfl
  have ht₃ := htb (ht₂.mark (h₃.waiting _ (.head _)).2)
  exact (ht₃.restore ht h₄).mark (h₄.waiting _ (.head _)).2

theorem Tidy.while {test yes stop : Nat} (ht : Tidy M routines st)
    (h₀ : WithLabels st st₀ [test, yes, stop]) (ht₀ : Tidy M routines st₀)
    (hc : Grows (st₀.mark test) st₁)
    (htc : Tidy M routines (st₀.mark test) → Tidy M routines st₁)
    (hb : Grows (((st₁.emit (.branchIfTrue yes)).emit (.jump stop)).mark yes) st₂)
    (htb : Tidy M routines (((st₁.emit (.branchIfTrue yes)).emit (.jump stop)).mark yes) →
      Tidy M routines st₂) :
    Tidy M routines (((st₂.restore st.visible).emit (.jump test)).mark stop) := by
  obtain ⟨hfirst, hrest⟩ := List.nodup_cons.mp h₀.nodup
  obtain ⟨hsecond, -⟩ := List.nodup_cons.mp hrest
  have hlt : test < stop := List.rel_of_pairwise_cons h₀.ordered (.tail _ (.head _))
  have h₁ := (h₀.pending.mark hfirst).grows hc
  have h₂ := (h₁.grows (grows_emit _ (.branchIfTrue yes))).grows (grows_emit _ (.jump stop))
  have h₃ := (h₂.mark hsecond).grows hb
  have h₄ := (h₃.restore st.visible).grows (grows_emit _ (.jump test))
  have ht₁ := htc (ht₀.mark (h₀.pending.waiting _ (.head _)).2)
  have ht₂ := (ht₁.emit (i := .branchIfTrue yes) (h₁.lt_size (.head _)) rfl).emit
    (i := .jump stop) (h₁.lt_size (.tail _ (.head _))) rfl
  have ht₃ := htb (ht₂.mark (h₂.waiting _ (.head _)).2)
  have htest : test < st₂.draft.labels.size := Nat.lt_trans hlt (h₃.lt_size (.head _))
  exact ((ht₃.restore ht h₃).emit (i := .jump test) htest rfl).mark (h₄.waiting _ (.head _)).2

theorem Tidy.doWhile {again test stop : Nat} (ht : Tidy M routines st)
    (h₀ : WithLabels st st₀ [again, test, stop]) (ht₀ : Tidy M routines st₀)
    (hb : Grows (st₀.mark again) st₁)
    (htb : Tidy M routines (st₀.mark again) → Tidy M routines st₁)
    (hc : Grows ((st₁.restore st.visible).mark test) st₂)
    (htc : Tidy M routines ((st₁.restore st.visible).mark test) → Tidy M routines st₂) :
    Tidy M routines ((st₂.emit (.branchIfTrue again)).mark stop) := by
  obtain ⟨hfirst, hrest⟩ := List.nodup_cons.mp h₀.nodup
  obtain ⟨hsecond, -⟩ := List.nodup_cons.mp hrest
  have hlt : again < stop := List.rel_of_pairwise_cons h₀.ordered (.tail _ (.head _))
  have h₁ := (h₀.pending.mark hfirst).grows hb
  have h₂ := ((h₁.restore st.visible).mark hsecond).grows hc
  have h₃ := h₂.grows (grows_emit _ (.branchIfTrue again))
  have ht₁ := (htb (ht₀.mark (h₀.pending.waiting _ (.head _)).2)).restore ht h₁
  have ht₂ := htc (ht₁.mark (h₁.waiting _ (.head _)).2)
  have hagain : again < st₂.draft.labels.size := Nat.lt_trans hlt (h₂.lt_size (.head _))
  exact (ht₂.emit (i := .branchIfTrue again) hagain rfl).mark (h₃.waiting _ (.head _)).2

end

mutual

/-- The code of a statement keeps a draft tidy.  The labels of a control structure wait until they
are marked, so each of them is marked once. -/
theorem lowerStmt_tidy (hM : Hosted M routines) {returnType : Ty} :
    ∀ {s : Stmt} {st st' : State}, lowerStmt M returnType st s = .ok st' →
      Tidy M routines st → Tidy M routines st'
  | .expr _ e, st, st', h, ht => by
    obtain ⟨⟨leaves, st₁⟩, he, h⟩ := bind_eq_ok.mp h
    obtain rfl := Except.ok.inj h
    exact (lowerValue_tidy hM he ht).discarded leaves
  | .decl _ x ty none, st, st', h, ht => by
    obtain ⟨⟨slot, st₁⟩, hd, h⟩ := bind_eq_ok.mp h
    obtain rfl := Except.ok.inj h
    exact (ht.declare hd).1
  | .decl _ x ty (some init), st, st', h, ht => by
    obtain ⟨st₁, he, h⟩ := bind_eq_ok.mp h
    obtain ⟨⟨slot, st₂⟩, hd, h⟩ := bind_eq_ok.mp h
    obtain rfl := Except.ok.inj h
    obtain ⟨ht₂, hslot⟩ := (lowerAs_tidy hM he ht).declare hd
    exact ht₂.emit hslot rfl
  | .assign _ x _ value, st, st', h, ht => by
    obtain ⟨y, hy, h⟩ := bind_eq_ok.mp h
    obtain ⟨st₁, hv, h⟩ := bind_eq_ok.mp h
    obtain rfl := Except.ok.inj h
    have ht₁ := lowerAs_tidy hM hv ht
    have hlays := lowerAs_layout hv
    refine ht₁.emit (formed_store (ht₁.visible x y ?_)) (isMarker_store y.slot)
    rw [hlays.visible]
    exact mem_of_lookup (resolve_eq_ok hy)
  | .assignElement _ x is _ value, st, st', h, ht => lowerElement_tidy hM h ht
  | .ifThen _ cond body, st, st', h, ht => by
    obtain ⟨st₁, hc, h⟩ := bind_eq_ok.mp h
    obtain ⟨st₂, hb, h⟩ := bind_eq_ok.mp h
    obtain rfl := Except.ok.inj h
    have h₀ := (WithLabels.refl st).newLabel.newLabel
    exact ht.ifThen h₀ (lowerAs_layout hc).grows (lowerAs_tidy hM hc ht.newLabel.newLabel)
      (lowerStmts_layout hb).grows (lowerStmts_tidy hM hb)
  | .ifElse _ cond body other, st, st', h, ht => by
    obtain ⟨st₁, hc, h⟩ := bind_eq_ok.mp h
    obtain ⟨st₂, ho, h⟩ := bind_eq_ok.mp h
    obtain ⟨st₃, hb, h⟩ := bind_eq_ok.mp h
    obtain rfl := Except.ok.inj h
    have h₀ := (WithLabels.refl st).newLabel.newLabel
    exact ht.ifElse h₀ (lowerAs_layout hc).grows (lowerAs_tidy hM hc ht.newLabel.newLabel)
      (lowerStmts_layout ho).grows (lowerStmts_tidy hM ho) (lowerStmts_layout hb).grows
      (lowerStmts_tidy hM hb)
  | .while _ cond body, st, st', h, ht => by
    obtain ⟨st₁, hc, h⟩ := bind_eq_ok.mp h
    obtain ⟨st₂, hb, h⟩ := bind_eq_ok.mp h
    obtain rfl := Except.ok.inj h
    have h₀ := (WithLabels.refl st).newLabel.newLabel.newLabel
    exact ht.while h₀ ht.newLabel.newLabel.newLabel (lowerAs_layout hc).grows (lowerAs_tidy hM hc)
      (lowerStmts_layout hb).grows (lowerStmts_tidy hM hb)
  | .doWhile _ body cond, st, st', h, ht => by
    obtain ⟨st₁, hb, h⟩ := bind_eq_ok.mp h
    obtain ⟨st₂, hc, h⟩ := bind_eq_ok.mp h
    obtain rfl := Except.ok.inj h
    have h₀ := (WithLabels.refl st).newLabel.newLabel.newLabel
    exact ht.doWhile h₀ ht.newLabel.newLabel.newLabel (lowerStmts_layout hb).grows
      (lowerStmts_tidy hM hb) (lowerAs_layout hc).grows (lowerAs_tidy hM hc)
  | .ret _ none, st, st', h, ht => by
    obtain rfl := Except.ok.inj h
    exact ht.emit trivial rfl
  | .ret _ (some value), st, st', h, ht => by
    unfold lowerStmt at h
    split at h
    · obtain ⟨st₁, hv, h⟩ := bind_eq_ok.mp h
      obtain rfl := Except.ok.inj h
      exact (lowerAs_tidy hM hv ht).emit trivial rfl
    · obtain ⟨⟨leaves, st₁⟩, hv, h⟩ := bind_eq_ok.mp h
      obtain rfl := Except.ok.inj h
      exact ((lowerValue_tidy hM hv ht).discarded leaves).emit trivial rfl
  | .block _ body, st, st', h, ht => by
    unfold lowerStmt at h
    dsimp only at h
    obtain ⟨st₁, hb, h⟩ := bind_eq_ok.mp h
    obtain rfl := Except.ok.inj h
    exact (lowerStmts_tidy hM hb ht).restore ht
      ((Pending.refl st).grows (lowerStmts_layout hb).grows)

theorem lowerStmts_tidy (hM : Hosted M routines) {returnType : Ty} :
    ∀ {ss : List Stmt} {st st' : State}, lowerStmts M returnType st ss = .ok st' →
      Tidy M routines st → Tidy M routines st'
  | [], st, st', h, ht => Except.ok.inj h ▸ ht
  | s :: rest, st, st', h, ht => by
    obtain ⟨st₁, hs, h⟩ := bind_eq_ok.mp h
    exact lowerStmts_tidy hM h (lowerStmt_tidy hM hs ht)

end

end

end Quill.Lowering
