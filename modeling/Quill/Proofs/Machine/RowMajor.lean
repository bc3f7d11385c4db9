import Mathlib.Order.Hom.Basic
import Quill.Proofs.Machine.Arrays
import Quill.Proofs.Machine.Effect

/-! # Row-major order

The position of an element is read off its indices like the value of a numeral off its digits, except
that every place has a base of its own, the dimension (`position`).  So positions of index lists are
ordered as the lists are, from left to right (`position_lt_iff`), and every position below the
product of the dimensions is that of one index list (`position_indicesAt`).

`checkedOffset` computes a position as `ArrayValue.offset` does, but gives up where an intermediate
result is no word of 64 bits.  The product of all dimensions is one, and so is the product of those
before the first zero; no index is in the range of a dimension that is zero (`checkedFrom_eq`).

`Made.rowMajor` puts this together for the arrays that are made with some dimensions and whose
elements have been set any number of times. -/

namespace Quill.Machine

open Code

namespace ArrayValue

/-! ### Indices in range -/

/-- The index is one of so many, counted from zero. -/
def IsIndex (index : Int64) (size : Nat) : Prop := 0 ≤ index.toInt ∧ index.toInt < size

instance (index : Int64) (size : Nat) : Decidable (IsIndex index size) :=
  inferInstanceAs (Decidable (_ ∧ _))

/-- There is one index for each dimension, and each is an index of its dimension. -/
def InRange (indices : List Int64) (sizes : List Nat) : Prop := List.Forall₂ IsIndex indices sizes

theorem isIndex_iff {index : Int64} {size : Nat} :
    0 ≤ index ∧ index.toInt.toNat < size ↔ IsIndex index size := by
  rw [Int64.le_iff_toInt_le, Int64.toInt_zero]
  constructor
  · rintro ⟨hle, hlt⟩
    constructor <;> omega
  · rintro ⟨hle, hlt⟩
    constructor <;> omega

theorem offsetFrom_cons {row : Nat} {index : Int64} {indices : List Int64} {size : Nat}
    {sizes : List Nat} (h : IsIndex index size) :
    offsetFrom row (index :: indices) (size :: sizes) =
      offsetFrom (row * size + index.toInt.toNat) indices sizes := by
  rw [offsetFrom, if_pos (isIndex_iff.mpr h)]

theorem offsetFrom_cons_of_not {row : Nat} {index : Int64} {indices : List Int64} {size : Nat}
    {sizes : List Nat} (h : ¬ IsIndex index size) :
    offsetFrom row (index :: indices) (size :: sizes) = .error (.indexOutOfBounds index size) := by
  rw [offsetFrom, if_neg (mt isIndex_iff.mp h)]

/-- The first index that is out of range is reported, with its dimension. -/
theorem offsetFrom_of_not_isIndex {index : Int64} {size : Nat} (hindex : ¬ IsIndex index size)
    (after : List Int64) (rest : List Nat) {front : List Int64} {sizes : List Nat}
    (hfront : InRange front sizes) (row : Nat) :
    offsetFrom row (front ++ index :: after) (sizes ++ size :: rest) =
      .error (.indexOutOfBounds index size) := by
  induction hfront generalizing row with
  | nil => exact offsetFrom_cons_of_not hindex
  | cons hin _ ih => exact (offsetFrom_cons hin).trans (ih _)

/-- An index list that is not in range but has the right length has a first index that is not. -/
theorem exists_first_of_not_inRange {indices : List Int64} :
    ∀ {sizes : List Nat}, indices.length = sizes.length → ¬ InRange indices sizes →
      ∃ front index after before size rest, indices = front ++ index :: after ∧
        sizes = before ++ size :: rest ∧ InRange front before ∧ ¬ IsIndex index size := by
  induction indices with
  | nil =>
    intro sizes hlen hout
    obtain rfl : sizes = [] := List.length_eq_zero_iff.mp hlen.symm
    exact absurd .nil hout
  | cons index indices ih =>
    intro sizes hlen hout
    cases sizes with
    | nil => cases hlen
    | cons size sizes =>
      by_cases hin : IsIndex index size
      · obtain ⟨front, i, after, before, n, rest, rfl, rfl, hfront, hi⟩ :=
          ih (Nat.succ.inj hlen) fun h => hout (.cons hin h)
        exact ⟨index :: front, i, after, size :: before, n, rest, rfl, rfl, .cons hin hfront, hi⟩
      · exact ⟨[], index, indices, [], size, sizes, rfl, rfl, .nil, hin⟩

/-! ### Positions of index lists -/

/-- The position of an index list in row-major order. -/
def position : List Int64 → List Nat → Nat
  | index :: indices, _ :: sizes => index.toInt.toNat * sizes.prod + position indices sizes
  | _, _ => 0

theorem offsetFrom_eq {indices : List Int64} {sizes : List Nat} (h : InRange indices sizes)
    (row : Nat) : offsetFrom row indices sizes = .ok (row * sizes.prod + position indices sizes) := by
  induction h generalizing row with
  | nil => simp [offsetFrom, position]
  | cons hin _ ih =>
    rw [offsetFrom_cons hin, ih, position, List.prod_cons, Nat.add_mul, Nat.mul_assoc, Nat.add_assoc]

theorem position_lt {indices : List Int64} {sizes : List Nat} (h : InRange indices sizes) :
    position indices sizes < sizes.prod := by
  have hlt := offsetFrom_lt h.length_eq (offsetFrom_eq h 0)
  simpa using hlt

theorem row_lt_iff {i j size p q : Nat} (hp : p < size) (hq : q < size) :
    i * size + p < j * size + q ↔ i < j ∨ i = j ∧ p < q := by
  rcases Nat.lt_trichotomy i j with hlt | rfl | hgt
  · have hrow : (i + 1) * size ≤ j * size := Nat.mul_le_mul_right size hlt
    rw [Nat.succ_mul] at hrow
    omega
  · omega
  · have hrow : (j + 1) * size ≤ i * size := Nat.mul_le_mul_right size hgt
    rw [Nat.succ_mul] at hrow
    omega

/-- Positions are ordered as index lists are. -/
theorem position_lt_iff {is : List Int64} {sizes : List Nat} (hi : InRange is sizes) :
    ∀ {js : List Int64}, InRange js sizes →
      (position is sizes < position js sizes ↔ is < js) := by
  induction hi with
  | nil =>
    intro js hj
    cases hj
    simp [position]
  | cons hin hrest ih =>
    intro js hj
    cases hj with
    | cons hjn hjrest =>
      rw [position, position, row_lt_iff (position_lt hrest) (position_lt hjrest), ih hjrest,
        List.cons_lt_cons_iff, Int64.lt_iff_toInt_lt, ← Int64.toInt_inj]
      have hi0 := hin.1
      have hj0 := hjn.1
      constructor
      · rintro (hlt | ⟨heq, hlt⟩)
        · exact .inl (by omega)
        · exact .inr ⟨by omega, hlt⟩
      · rintro (hlt | ⟨heq, hlt⟩)
        · exact .inl (by omega)
        · exact .inr ⟨by omega, hlt⟩

def indicesAt (n : Nat) : List Nat → List Int64
  | [] => []
  | _ :: sizes => Int64.ofNat (n / sizes.prod) :: indicesAt (n % sizes.prod) sizes

/-- A dimension is a number that an index can be. -/
def IsSize (size : Nat) : Prop := size < 2 ^ 63

theorem indicesAt_inRange {sizes : List Nat} :
    ∀ {n : Nat}, (∀ size ∈ sizes, IsSize size) → n < sizes.prod →
      InRange (indicesAt n sizes) sizes ∧ position (indicesAt n sizes) sizes = n := by
  induction sizes with
  | nil =>
    intro n _ hn
    exact ⟨.nil, (Nat.lt_one_iff.mp hn).symm⟩
  | cons size sizes ih =>
    intro n hsizes hn
    obtain ⟨hsize, hrest⟩ := List.forall_mem_cons.mp hsizes
    rw [List.prod_cons, Nat.mul_comm] at hn
    have hpos : 0 < sizes.prod := Nat.pos_of_lt_mul_right hn
    have hrow : n / sizes.prod < size := Nat.div_lt_of_lt_mul hn
    obtain ⟨hin, heq⟩ := ih hrest (Nat.mod_lt n hpos)
    have hword : (Int64.ofNat (n / sizes.prod)).toInt = (n / sizes.prod : Nat) :=
      Int64.toInt_ofNat_of_lt (Nat.lt_trans hrow hsize)
    constructor
    · apply List.Forall₂.cons _ hin
      unfold IsIndex
      rw [hword]
      constructor
      · exact Int.natCast_nonneg _
      · exact Int.ofNat_lt.mpr hrow
    · rw [indicesAt, position, heq, hword, Int.toNat_natCast, Nat.div_add_mod']

theorem ofNat_toNat_toInt {index : Int64} (h : 0 ≤ index.toInt) :
    Int64.ofNat index.toInt.toNat = index := by
  rw [← Int64.ofInt_eq_ofNat, Int.toNat_of_nonneg h, Int64.ofInt_toInt]

theorem indicesAt_position {indices : List Int64} {sizes : List Nat} (h : InRange indices sizes) :
    indicesAt (position indices sizes) sizes = indices := by
  induction h with
  | nil => rfl
  | cons hin hrest ih =>
    have hlt := position_lt hrest
    have hpos := Nat.zero_lt_of_lt hlt
    rw [position, indicesAt, Nat.add_comm, Nat.add_mul_div_right _ _ hpos, Nat.div_eq_of_lt hlt,
      Nat.zero_add, ofNat_toNat_toInt hin.1, Nat.add_mul_mod_self_right, Nat.mod_eq_of_lt hlt, ih]

/-! ### Words -/

/-- All products of the first dimensions with the total are words. -/
def Words (total : Nat) : List Nat → Prop
  | [] => True
  | size :: sizes => total * size < lengthLimit ∧ Words (total * size) sizes

/-- The position of an element, from the position of its row on, unless an intermediate result is
no word. -/
def checkedFrom (row : Nat) : List Int64 → List Nat → Option (Except Fault Nat)
  | index :: indices, size :: sizes =>
    if 0 ≤ index ∧ index.toInt.toNat < size then
      if row * size < lengthLimit ∧ row * size + index.toInt.toNat < lengthLimit then
        checkedFrom (row * size + index.toInt.toNat) indices sizes
      else none
    else some (.error (.indexOutOfBounds index size))
  | _, _ => some (.ok row)

/-- The position of an element, unless an intermediate result is no word. -/
def checkedOffset (a : ArrayValue) (indices : List Int64) : Option (Except Fault Nat) :=
  if indices.length ≠ a.dims.length then
    some (.error (.invalidProgram (.indexCount indices.length a.dims.length)))
  else checkedFrom 0 indices a.dims

theorem checkedFrom_eq {indices : List Int64} :
    ∀ {row total : Nat} {sizes : List Nat}, row < total → Words total sizes →
      checkedFrom row indices sizes = some (offsetFrom row indices sizes) := by
  induction indices with
  | nil =>
    intro row total sizes _ _
    cases sizes <;> rfl
  | cons index indices ih =>
    intro row total sizes hrow hwords
    cases sizes with
    | nil => rfl
    | cons size sizes =>
      obtain ⟨hword, hrest⟩ := hwords
      rw [checkedFrom, offsetFrom]
      split
      · next hin =>
        have hnext : row * size + index.toInt.toNat < total * size := by
          have hle : (row + 1) * size ≤ total * size := Nat.mul_le_mul_right size hrow
          rw [Nat.succ_mul] at hle
          omega
        rw [if_pos ⟨by omega, by omega⟩]
        exact ih hnext hrest
      · rfl

theorem dimensions_words {dims : List Int64} :
    ∀ {total : Nat} {done sizes : List Nat} {size : Nat},
      dimensions total done dims = .ok (sizes, size) →
        ∃ rest, sizes = done.reverse ++ rest ∧ Words total rest ∧
          rest.map Int.ofNat = dims.map Int64.toInt := by
  induction dims with
  | nil =>
    intro total done sizes size h
    obtain ⟨rfl, rfl⟩ := Prod.mk.inj (Except.ok.inj h)
    exact ⟨[], by simp, trivial, rfl⟩
  | cons dim dims ih =>
    intro total done sizes size h
    rw [dimensions] at h
    split at h
    · cases h
    · next hneg =>
      dsimp only at h
      split at h
      · next hword =>
        obtain ⟨rest, rfl, hrest, hdims⟩ := ih h
        refine ⟨dim.toInt.toNat :: rest, by simp, ⟨hword, hrest⟩, ?_⟩
        have hpos : 0 ≤ dim.toInt := by
          rw [Int64.lt_iff_toInt_lt, Int64.toInt_zero] at hneg
          omega
        rw [List.map_cons, List.map_cons, hdims, Int.ofNat_eq_natCast, Int.toNat_of_nonneg hpos]
      · cases h

theorem isSize_of_map_eq {sizes : List Nat} {dims : List Int64}
    (h : sizes.map Int.ofNat = dims.map Int64.toInt) : ∀ size ∈ sizes, IsSize size := by
  intro size hsize
  have hmem : Int.ofNat size ∈ dims.map Int64.toInt := h ▸ List.mem_map_of_mem hsize
  obtain ⟨dim, -, hdim⟩ := List.mem_map.mp hmem
  have hlt := Int64.toInt_lt dim
  unfold IsSize
  rw [hdim] at hlt
  exact Int.ofNat_lt.mp hlt

/-! ### Setting elements -/

/-- The arrays that are made with some dimensions and some of whose elements have been set since. -/
inductive Made (element : Element) (dims : List Int64) : ArrayValue → Prop where
  | new {a : ArrayValue} : ArrayValue.new element dims = .ok a → Made element dims a
  | set {a b : ArrayValue} {indices : List Int64} {v : Value} : Made element dims a →
      a.set indices v = .ok b → Made element dims b

theorem place_ok {a : ArrayValue} {indices : List Int64} {i : Nat}
    (h : a.place indices = .ok i) : a.offset indices = .ok i ∧ i < a.length := by
  unfold place at h
  cases ho : a.offset indices with
  | error e =>
    rw [ho] at h
    cases h
  | ok j =>
    rw [ho] at h
    dsimp only [bind, Except.bind] at h
    by_cases hj : j < a.length
    · rw [if_pos hj] at h
      obtain rfl := Except.ok.inj h
      exact ⟨rfl, hj⟩
    · rw [if_neg hj] at h
      cases h

theorem set_of_place {a : ArrayValue} {indices : List Int64} {i : Nat}
    (h : a.place indices = .ok i) (v : Value) :
    a.set indices v = .ok { a with data := a.data.setIfInBounds i v } := by
  unfold set
  rw [h]
  rfl

theorem set_ok {a b : ArrayValue} {indices : List Int64} {v : Value}
    (h : a.set indices v = .ok b) :
    ∃ i, a.offset indices = .ok i ∧ i < a.length ∧
      b = { a with data := a.data.setIfInBounds i v } := by
  cases hp : a.place indices with
  | error e =>
    unfold set at h
    rw [hp] at h
    cases h
  | ok i =>
    obtain ⟨ho, hlt⟩ := place_ok hp
    rw [set_of_place hp] at h
    exact ⟨i, ho, hlt, (Except.ok.inj h).symm⟩

theorem get_of_lt {a : ArrayValue} {indices : List Int64} {i : Nat} (ho : a.offset indices = .ok i)
    (hi : i < a.data.size) : a.get indices = .ok a.data[i] := by
  unfold get
  rw [ho]
  dsimp only [bind, Except.bind]
  rw [Array.getElem?_eq_getElem hi]
  rfl

theorem inRange_of_offset {a : ArrayValue} {indices : List Int64} {i : Nat}
    (h : a.offset indices = .ok i) :
    InRange indices a.dims ∧ i = position indices a.dims := by
  unfold offset at h
  split at h
  · cases h
  · next hlen =>
    by_cases hin : InRange indices a.dims
    · rw [offsetFrom_eq hin, Nat.zero_mul, Nat.zero_add] at h
      exact ⟨hin, (Except.ok.inj h).symm⟩
    · obtain ⟨front, index, after, before, size, rest, rfl, hdims, hfront, hindex⟩ :=
        exists_first_of_not_inRange (Decidable.not_not.mp hlen) hin
      rw [hdims, offsetFrom_of_not_isIndex hindex after rest hfront] at h
      cases h

theorem offset_of_inRange {a : ArrayValue} {indices : List Int64} (h : InRange indices a.dims) :
    a.offset indices = .ok (position indices a.dims) := by
  unfold offset
  rw [if_neg (not_not_intro h.length_eq), offsetFrom_eq h, Nat.zero_mul, Nat.zero_add]

/-- An assignment changes one element. -/
theorem get_set {a : ArrayValue} {indices : List Int64} {v : Value} {b : ArrayValue}
    (hset : a.set indices v = .ok b) :
    b.get indices = .ok v ∧ ∀ other, other ≠ indices → b.get other = a.get other := by
  obtain ⟨i, hi, hlt, rfl⟩ := set_ok hset
  have hoffset : ∀ js, ArrayValue.offset { a with data := a.data.setIfInBounds i v } js =
    a.offset js := fun _ => rfl
  constructor
  · have hsize : i < (a.data.setIfInBounds i v).size := by simpa [length] using hlt
    rw [get_of_lt ((hoffset indices).trans hi) hsize]
    exact congrArg Except.ok (Array.getElem_setIfInBounds_self hsize)
  · intro other hne
    cases ho : a.offset other with
    | error e => simp [get, hoffset, ho, bind, Except.bind]
    | ok j =>
      have hij : i ≠ j := by
        rintro rfl
        obtain ⟨hin, heq⟩ := inRange_of_offset hi
        obtain ⟨hjn, hjeq⟩ := inRange_of_offset ho
        apply hne
        rw [← indicesAt_position hjn, ← indicesAt_position hin, ← hjeq, ← heq]
      simp [get, hoffset, ho, bind, Except.bind, Array.getElem?_setIfInBounds_ne hij, length]

/-- Row-major addressing of an array with some dimensions: positions are computed without leaving
the words, exactly the index lists in range have one, and in their order they count through the
elements.  Of an index list that is not in range the first wrong index is reported. -/
structure RowMajor (dims : List Int64) (a : ArrayValue) : Prop where
  sizes : a.dims.map Int.ofNat = dims.map Int64.toInt
  length : a.length = a.dims.prod
  checked : ∀ indices, a.checkedOffset indices = some (a.offset indices)
  found : ∀ indices, (∃ i, a.offset indices = .ok i) ↔ InRange indices a.dims
  rank : ∀ indices, indices.length ≠ a.dims.length →
    a.offset indices = .error (.invalidProgram (.indexCount indices.length a.dims.length))
  refused : ∀ indices, indices.length = a.dims.length → ¬ InRange indices a.dims →
    ∃ front index after before size rest, indices = front ++ index :: after ∧
      a.dims = before ++ size :: rest ∧ InRange front before ∧ ¬ IsIndex index size ∧
      a.offset indices = .error (.indexOutOfBounds index size)
  order : ∃ e : {indices // InRange indices a.dims} ≃o Fin a.length,
    ∀ indices, a.offset indices.1 = .ok (e indices).1

/-- The positions of index lists in range, in their order. -/
def positions {sizes : List Nat} (hsizes : ∀ size ∈ sizes, IsSize size) :
    {indices // InRange indices sizes} ≃o Fin sizes.prod where
  toFun indices := ⟨position indices.1 sizes, position_lt indices.2⟩
  invFun n := ⟨indicesAt n.1 sizes, (indicesAt_inRange hsizes n.2).1⟩
  left_inv indices := Subtype.ext (indicesAt_position indices.2)
  right_inv n := Fin.ext (indicesAt_inRange hsizes n.2).2
  map_rel_iff' := by
    intro is js
    show position is.1 sizes ≤ position js.1 sizes ↔ ¬ js.1 < is.1
    rw [← position_lt_iff js.2 is.2, Nat.not_lt]

namespace Made

variable {element : Element} {dims : List Int64} {a : ArrayValue} (h : Made element dims a)
include h

theorem full : a.Full := by
  induction h with
  | new hnew => exact full_new hnew
  | set _ hset ih =>
    obtain ⟨i, -, -, rfl⟩ := set_ok hset
    unfold Full
    rw [Array.size_setIfInBounds]
    exact ih

theorem dims_words : Words 1 a.dims ∧ a.dims.map Int.ofNat = dims.map Int64.toInt := by
  induction h with
  | new hnew =>
    unfold ArrayValue.new at hnew
    cases hd : dimensions 1 [] dims with
    | error e =>
      rw [hd] at hnew
      cases hnew
    | ok r =>
      rw [hd] at hnew
      obtain rfl := Except.ok.inj hnew
      obtain ⟨rest, hrest, hwords, hdims⟩ := dimensions_words hd
      rw [List.reverse_nil, List.nil_append] at hrest
      exact hrest ▸ ⟨hwords, hdims⟩
  | set _ hset ih =>
    obtain ⟨i, -, -, rfl⟩ := set_ok hset
    exact ih

theorem checkedOffset_eq (indices : List Int64) :
    a.checkedOffset indices = some (a.offset indices) := by
  unfold checkedOffset offset
  split
  · rfl
  · exact checkedFrom_eq Nat.one_pos h.dims_words.1

theorem addressed : a.RowMajor dims where
  sizes := h.dims_words.2
  length := h.full
  checked := h.checkedOffset_eq
  found indices := by
    constructor
    · rintro ⟨i, hi⟩
      exact (inRange_of_offset hi).1
    · intro hin
      exact ⟨_, offset_of_inRange hin⟩
  rank indices hlen := if_pos hlen
  refused indices hlen hout := by
    obtain ⟨front, index, after, before, size, rest, heq, hdims, hfront, hindex⟩ :=
      exists_first_of_not_inRange hlen hout
    refine ⟨front, index, after, before, size, rest, heq, hdims, hfront, hindex, ?_⟩
    unfold offset
    rw [if_neg (not_not_intro hlen), heq, hdims, offsetFrom_of_not_isIndex hindex after rest hfront]
  order := by
    have hlen : a.length = a.dims.prod := h.full
    rw [hlen]
    exact ⟨positions (isSize_of_map_eq h.dims_words.2), fun indices => offset_of_inRange indices.2⟩

end Made

end ArrayValue

/-! ### Assignments by instructions -/

/-- One element of one array of the heap is set. -/
def SetsElement (before after : Heap) : Prop :=
  ∃ ref a b indices v, before.arrays.find ref = .ok a ∧ a.set indices v = .ok b ∧
    after.arrays.find ref = .ok b ∧
      ∀ other, other ≠ ref → after.arrays.find other = before.arrays.find other

/-- Where the action ends well it changes the heap as the relation says; where it ends in a fault it
leaves the heap alone. -/
def Alters (rel : Heap → Heap → Prop) (x : Action α) : Prop :=
  ∀ s, match x s with
    | .ok _ s' => rel s.heap s'.heap
    | .error _ s' => s'.heap = s.heap

theorem Alters.bind {rel : Heap → Heap → Prop} {x : Action α} {g : α → Action β}
    (hx : Alters Eq x) (hg : ∀ a, Alters rel (g a)) : Alters rel (x >>= g) := by
  intro s
  rw [bind_run]
  have hfirst := hx s
  cases hs : x s with
  | error e s' =>
    rw [hs] at hfirst
    exact hfirst
  | ok a s' =>
    rw [hs] at hfirst
    dsimp only at hfirst ⊢
    rw [hfirst]
    exact hg a s'

theorem Alters.ofExcept (r : Except Fault α) : Alters Eq (ofExcept r) := by
  intro s
  cases r <;> rfl

theorem Alters.pop {m : Method} : Alters Eq (pop m) := by
  intro s
  unfold Machine.pop
  by_cases hbase : s.stack.size ≤ s.frame.base
  · rw [if_pos hbase]
  · rw [if_neg hbase]
    cases s.stack.back? <;> rfl

theorem Alters.popMany {m : Method} (count : Nat) : Alters Eq (popMany m count) := by
  intro s
  unfold Machine.popMany
  by_cases hbase : s.stack.size < s.frame.base + count
  · rw [if_pos hbase]
  · rw [if_neg hbase]

theorem Alters.popInts {m : Method} (count : Nat) : Alters Eq (popInts m count) :=
  (Alters.popMany count).bind fun _ => .ofExcept _

theorem find_replace {as : Arrays} {ref : Ref} {a : ArrayValue} {i : Nat}
    (hfind : as.find ref = .ok a) (hi : i < a.length) (v : Value) :
    (as.replace ref i v).find ref = .ok { a with data := a.data.setIfInBounds i v } ∧
      ∀ other, other ≠ ref → (as.replace ref i v).find other = as.find other := by
  cases ref with
  | empty element rank id =>
    obtain rfl := Except.ok.inj hfind
    exact absurd hi (Nat.not_lt_zero i)
  | made place =>
    unfold Arrays.replace
    dsimp only
    constructor
    · unfold Arrays.find at hfind ⊢
      dsimp only at hfind ⊢
      rw [Array.getElem?_modify]
      cases hget : as[place]? with
      | none => simp [hget] at hfind
      | some a' =>
        rw [hget] at hfind
        obtain rfl := Except.ok.inj hfind
        simp
    · intro other hne
      cases other with
      | empty element rank id => rfl
      | made other =>
        have hplace : place ≠ other := by
          rintro rfl
          exact hne rfl
        unfold Arrays.find
        dsimp only
        rw [Array.getElem?_modify, Array.size_modify, if_neg hplace]

/-- The instruction that sets an element sets one element of one array, or leaves all arrays
alone. -/
theorem arraySet_alters (m : Method) (rank : Nat) : Alters SetsElement (arraySet m rank) := by
  refine Alters.pop.bind fun v => (Alters.popInts rank).bind fun indices => Alters.pop.bind
    fun u => (Alters.ofExcept _).bind fun ref s => ?_
  cases hfind : s.heap.arrays.find ref with
  | error e => rfl
  | ok a =>
    cases hplace : a.place indices with
    | error e => simp [Except.bind, hplace]
    | ok i =>
      obtain ⟨hself, hothers⟩ := find_replace hfind (ArrayValue.place_ok hplace).2 v
      simp only [Except.bind, hplace]
      exact ⟨ref, a, _, indices, v, hfind, ArrayValue.set_of_place hplace v, hself, hothers⟩

/-! ### Addressing -/

/-- Row-major addressing of an array that is made with some dimensions, before and after its
elements are set.  An assignment succeeds where there is a position, changes the element there and
no other one, and an instruction that fails to assign leaves all arrays as they are. -/
theorem ArrayValue.Made.rowMajor {element : Element} {dims : List Int64} {a : ArrayValue}
    (h : Made element dims a) :
    a.RowMajor dims ∧
      (∀ indices v b, a.set indices v = .ok b → b.get indices = .ok v ∧
        ∀ other, other ≠ indices → b.get other = a.get other) ∧
      (∀ indices v e, a.set indices v = .error e → a.offset indices = .error e) ∧
      ∀ m rank, Alters SetsElement (arraySet m rank) := by
  refine ⟨h.addressed, fun indices v b => get_set, fun indices v e hset => ?_, arraySet_alters⟩
  cases ho : a.offset indices with
  | error e' => simpa [ArrayValue.set, place, ho, bind, Except.bind] using hset
  | ok i =>
    have hi : i < a.length := h.full.offset_lt ho
    have hplace : a.place indices = .ok i := by
      simp [place, ho, bind, Except.bind, hi, pure, Except.pure]
    rw [set_of_place hplace] at hset
    cases hset

/-- Two rows of three integers; the element at one and zero is the first of the second row. -/
theorem ArrayValue.Made.rowMajor_grid :
    ∃ a b, Made .integer [2, 3] a ∧ a.RowMajor [2, 3] ∧ a.offset [1, 0] = .ok 3 ∧
      a.set [1, 0] (.int 7) = .ok b ∧ b.get [1, 0] = .ok (.int 7) ∧ b.get [0, 2] = a.get [0, 2] := by
  have ha : Made .integer [2, 3] ⟨.integer, [2, 3], Array.replicate 6 (.int 0)⟩ := .new rfl
  have hset : ArrayValue.set ⟨.integer, [2, 3], Array.replicate 6 (.int 0)⟩ [1, 0] (.int 7) =
    .ok _ := rfl
  obtain ⟨haddress, hassign, -⟩ := ha.rowMajor
  obtain ⟨hself, hothers⟩ := hassign _ _ _ hset
  exact ⟨_, _, ha, haddress, rfl, hset, hself, hothers [0, 2] (by decide)⟩

end Quill.Machine
