import Mathlib.Algebra.BigOperators.Group.List.Basic
import Quill.Proofs.Machine.Faults

/-! # Full arrays

An array is full when it has as many elements as its dimensions promise (`ArrayValue.Full`).  Row by
row, the position of an element stays below the product of the dimensions, so in a full array every
position that `ArrayValue.offset` gives is that of an element (`ArrayValue.Full.offset_lt`).  Arrays
that are made are full; the array that a variable starts with is full exactly when it has a
dimension (`full_empty_iff`).

`AllFull` says of all arrays of a heap that they are full and that the references among their
elements mean full arrays of the heap again. -/

namespace Quill.Machine

open Code

/-- The fault tells of an element that an array should have. -/
def Fault.isMissing : Fault → Bool
  | .missingElement _ _ => true
  | _ => false

theorem Fault.isMissing_of_isPlain {e : Fault} (h : e.isPlain = true) : e.isMissing = false := by
  cases e with
  | missingElement offset length => cases h
  | _ => rfl

namespace ArrayValue

/-- The array has as many elements as its dimensions promise. -/
def Full (a : ArrayValue) : Prop := a.data.size = a.dims.prod

/-! ### Positions -/

theorem offsetFrom_lt {indices : List Int64} :
    ∀ {row : Nat} {sizes : List Nat} {i : Nat}, indices.length = sizes.length →
      offsetFrom row indices sizes = .ok i → i < (row + 1) * sizes.prod := by
  induction indices with
  | nil =>
    intro row sizes i hlen h
    obtain rfl : sizes = [] := List.length_eq_zero_iff.mp hlen.symm
    obtain rfl := Except.ok.inj h
    simp
  | cons index indices ih =>
    intro row sizes i hlen h
    cases sizes with
    | nil => cases hlen
    | cons size sizes =>
      rw [offsetFrom] at h
      split at h
      · next hin =>
        have hi := ih (Nat.succ.inj hlen) h
        have hrow : row * size + index.toInt.toNat + 1 ≤ (row + 1) * size := by
          rw [Nat.add_mul]
          omega
        calc i < (row * size + index.toInt.toNat + 1) * sizes.prod := hi
          _ ≤ (row + 1) * size * sizes.prod := Nat.mul_le_mul_right _ hrow
          _ = (row + 1) * (size :: sizes).prod := by rw [List.prod_cons, Nat.mul_assoc]
      · cases h

theorem offset_lt {a : ArrayValue} {indices : List Int64} {i : Nat}
    (h : a.offset indices = .ok i) : i < a.dims.prod := by
  unfold offset at h
  split at h
  · cases h
  · next hlen =>
    have hlt := offsetFrom_lt (Decidable.not_not.mp hlen) h
    rwa [Nat.zero_add, Nat.one_mul] at hlt

theorem Full.offset_lt {a : ArrayValue} (ha : a.Full) {indices : List Int64} {i : Nat}
    (h : a.offset indices = .ok i) : i < a.data.size := by
  rw [ha]
  exact ArrayValue.offset_lt h

theorem Full.plain_get {a : ArrayValue} (ha : a.Full) (indices : List Int64) :
    Plain (a.get indices) := by
  unfold get
  cases ho : a.offset indices with
  | error e => exact .error (plain_offset a indices e ho)
  | ok i =>
    dsimp only [bind, Except.bind]
    rw [Array.getElem?_eq_getElem (ha.offset_lt ho)]
    exact .ok _

theorem Full.plain_place {a : ArrayValue} (ha : a.Full) (indices : List Int64) :
    Plain (a.place indices) := by
  unfold place
  cases ho : a.offset indices with
  | error e => exact .error (plain_offset a indices e ho)
  | ok i =>
    have hlt : i < a.length := ha.offset_lt ho
    show Plain (if i < a.length then pure i else throw (.missingElement i a.length))
    rw [if_pos hlt]
    exact .ok _

theorem get_mem {a : ArrayValue} {indices : List Int64} {v : Value} (h : a.get indices = .ok v) :
    v ∈ a.data := by
  unfold get at h
  cases ho : a.offset indices with
  | error e =>
    rw [ho] at h
    cases h
  | ok i =>
    rw [ho] at h
    dsimp only [bind, Except.bind] at h
    split at h
    · next w hw =>
      obtain rfl := Except.ok.inj h
      exact Array.mem_of_getElem? hw
    · cases h

/-! ### Making arrays -/

theorem dimensions_prod {dims : List Int64} :
    ∀ {total : Nat} {done sizes : List Nat} {size : Nat},
      dimensions total done dims = .ok (sizes, size) →
        ∃ rest, sizes = done.reverse ++ rest ∧ size = total * rest.prod := by
  induction dims with
  | nil =>
    intro total done sizes size h
    obtain ⟨rfl, rfl⟩ := Prod.mk.inj (Except.ok.inj h)
    exact ⟨[], by simp, by simp⟩
  | cons dim dims ih =>
    intro total done sizes size h
    rw [dimensions] at h
    split at h
    · cases h
    · dsimp only at h
      split at h
      · obtain ⟨rest, rfl, rfl⟩ := ih h
        refine ⟨dim.toInt.toNat :: rest, by simp, ?_⟩
        rw [List.prod_cons, Nat.mul_assoc]
      · cases h

theorem full_new {element : Element} {dims : List Int64} {a : ArrayValue}
    (h : new element dims = .ok a) : a.Full := by
  unfold new at h
  cases hd : dimensions 1 [] dims with
  | error e =>
    rw [hd] at h
    cases h
  | ok r =>
    rw [hd] at h
    obtain rfl := Except.ok.inj h
    obtain ⟨rest, hsizes, htotal⟩ := dimensions_prod hd
    show (Array.replicate r.2 _).size = r.1.prod
    rw [Array.size_replicate, hsizes, htotal]
    simp

theorem mem_new {element : Element} {dims : List Int64} {a : ArrayValue}
    (h : new element dims = .ok a) {v : Value} (hv : v ∈ a.data) : v = defaultElement element := by
  unfold new at h
  cases hd : dimensions 1 [] dims with
  | error e =>
    rw [hd] at h
    cases h
  | ok r =>
    rw [hd] at h
    obtain rfl := Except.ok.inj h
    exact (Array.mem_replicate.mp hv).2

/-- The array that a variable starts with is full exactly when it has a dimension, which then is
zero. -/
theorem full_empty_iff (element : Element) (rank : Nat) : (empty element rank).Full ↔ rank ≠ 0 := by
  unfold Full empty
  rw [List.prod_replicate]
  cases rank with
  | zero => simp
  | succ rank => simp

end ArrayValue

/-! ### References -/

/-- A reference of the value means one of the first `count` arrays that were made, or an array that
a variable starts with and that is full. -/
def Value.Fits (count : Nat) : Value → Prop
  | .array (.made place) => place < count
  | .array (.empty _ rank _) => rank ≠ 0
  | _ => True

theorem Value.Fits.mono {m n : Nat} (h : m ≤ n) {v : Value} (hv : v.Fits m) : v.Fits n := by
  cases v with
  | array ref =>
    cases ref with
    | made place => exact Nat.lt_of_lt_of_le hv h
    | empty element rank id => exact hv
  | _ => trivial

theorem defaultElement_fits (count : Nat) (element : Element) :
    (defaultElement element).Fits count := by
  cases element <;> trivial

/-- The arrays are full and their elements refer to full arrays. -/
def AllFull (as : Arrays) : Prop := ∀ a ∈ as, a.Full ∧ ∀ v ∈ a.data, v.Fits as.size

theorem allFull_empty : AllFull #[] := fun a ha => absurd ha (Array.not_mem_empty a)

namespace AllFull

variable {as : Arrays} (h : AllFull as)
include h

theorem find {ref : Ref} (hr : (Value.array ref).Fits as.size) :
    ∃ a, as.find ref = .ok a ∧ a.Full ∧ ∀ v ∈ a.data, v.Fits as.size := by
  cases ref with
  | made place =>
    have hlt : place < as.size := hr
    refine ⟨as[place], ?_, h _ (Array.getElem_mem hlt)⟩
    rw [Arrays.find, Array.getElem?_eq_getElem hlt]
  | empty element rank id =>
    refine ⟨.empty element rank, rfl, (ArrayValue.full_empty_iff element rank).mpr hr, ?_⟩
    exact fun v hv => absurd hv (Array.not_mem_empty v)

theorem push {a : ArrayValue} (ha : a.Full) (hv : ∀ v ∈ a.data, v.Fits as.size) :
    AllFull (as.push a) := by
  intro b hb
  rw [Array.size_push]
  rcases Array.mem_push.mp hb with hb | rfl
  · exact ⟨(h b hb).1, fun v hv => ((h b hb).2 v hv).mono (Nat.le_succ _)⟩
  · exact ⟨ha, fun v hv' => (hv v hv').mono (Nat.le_succ _)⟩

theorem replace {v : Value} (hv : v.Fits as.size) (ref : Ref) (i : Nat) :
    AllFull (as.replace ref i v) := by
  cases ref with
  | empty element rank id => exact h
  | made place =>
    intro b hb
    unfold Arrays.replace at hb ⊢
    dsimp only at hb ⊢
    rw [Array.size_modify]
    obtain ⟨k, hk, rfl⟩ := Array.mem_iff_getElem.mp hb
    rw [Array.size_modify] at hk
    obtain ⟨hfull, hfits⟩ := h as[k] (Array.getElem_mem hk)
    rw [Array.getElem_modify]
    split
    · refine ⟨?_, fun w hw => ?_⟩
      · unfold ArrayValue.Full
        rw [Array.size_setIfInBounds]
        exact hfull
      · rcases Array.mem_or_eq_of_mem_setIfInBounds hw with hw | rfl
        · exact hfits w hw
        · exact hv
    · exact ⟨hfull, hfits⟩

end AllFull

theorem size_replace (as : Arrays) (ref : Ref) (i : Nat) (v : Value) :
    (as.replace ref i v).size = as.size := by
  cases ref with
  | made place => exact Array.size_modify
  | empty element rank id => rfl

end Quill.Machine
