import Mathlib.Data.List.Nodup
import Quill.Wire.Format

/-! # Exact formats

A format is exact on a set of values if it reads a value from just those bytes that start with what
it writes for the value, and then leaves the bytes that follow.  So nothing is lost in writing, no
value has a second written form, and no bytes are read that were not written.

`Format.Exact` is kept by all ways to build formats: numbers, sequences, texts, optional values and
choices.  A length is a number too, so sequences and texts must have fewer than `2 ^ 64` parts. -/

namespace Quill.Wire

namespace Format

/-- What is read is what was written, on the values `ok`. -/
def Exact {α : Type} (f : Format α) (ok : α → Prop) : Prop :=
  ∀ bs a rest, f.read bs = .ok (a, rest) ↔ ok a ∧ bs = f.write a ++ rest

section

variable {α β : Type} {f : Format α} {ok : α → Prop}

theorem Exact.read_write (h : f.Exact ok) {a : α} (ha : ok a) (rest : Bytes) :
    f.read (f.write a ++ rest) = .ok (a, rest) := (h _ a rest).mpr ⟨ha, rfl⟩

theorem Exact.of_read (h : f.Exact ok) {bs rest : Bytes} {a : α} (hr : f.read bs = .ok (a, rest)) :
    ok a ∧ bs = f.write a ++ rest := (h bs a rest).mp hr

theorem Exact.congr {ok' : α → Prop} (h : f.Exact ok) (hok : ∀ a, ok a ↔ ok' a) :
    f.Exact ok' := by
  intro bs a rest
  rw [h bs a rest, hok a]

theorem Exact.bind_eq_ok (h : f.Exact ok) {bs : Bytes} {k : α × Bytes → Except Fault β} {b : β} :
    (f.read bs >>= k) = .ok b ↔
      ∃ a rest, (ok a ∧ bs = f.write a ++ rest) ∧ k (a, rest) = .ok b := by
  constructor
  · intro hb
    cases hr : f.read bs with
    | error e =>
      rw [hr] at hb
      cases hb
    | ok r =>
      rw [hr] at hb
      exact ⟨r.1, r.2, h.of_read hr, hb⟩
  · rintro ⟨a, rest, ⟨ha, rfl⟩, hk⟩
    rw [h.read_write ha rest]
    exact hk

/-! ### Numbers -/

/-- How many numbers there are with so many bytes. -/
def numberCount : Nat → Nat
  | 0 => 1
  | width + 1 => 256 * numberCount width

theorem exact_number (width : Nat) : (number width).Exact (· < numberCount width) := by
  induction width with
  | zero =>
    intro bs n rest
    simp only [number, readNumber, numberBytes, Except.ok.injEq, Prod.mk.injEq, List.nil_append]
    constructor
    · rintro ⟨rfl, rfl⟩
      exact ⟨Nat.zero_lt_one, rfl⟩
    · rintro ⟨hn, rfl⟩
      exact ⟨by rw [numberCount] at hn; omega, rfl⟩
  | succ width ih =>
    intro bs n rest
    cases bs with
    | nil => simp [number, readNumber, numberBytes]
    | cons b bs =>
      have hb : b.toNat < 256 := b.toNat_lt
      show ((number width).read bs >>= fun r => pure (b.toNat + 256 * r.1, r.2)) = _ ↔
        _ ∧ b :: bs = (n % 256).toUInt8 :: ((number width).write (n / 256) ++ rest)
      rw [ih.bind_eq_ok, List.cons.injEq]
      constructor
      · rintro ⟨v, rest', ⟨hv, rfl⟩, h⟩
        obtain ⟨rfl, rfl⟩ := Prod.mk.inj (Except.ok.inj h)
        have hmod : (b.toNat + 256 * v) % 256 = b.toNat := by omega
        have hdiv : (b.toNat + 256 * v) / 256 = v := by omega
        dsimp only
        rw [hmod, hdiv, numberCount]
        exact ⟨by omega, by simp, rfl⟩
      · rintro ⟨hn, rfl, rfl⟩
        rw [numberCount] at hn
        refine ⟨n / 256, rest, ⟨by omega, rfl⟩, ?_⟩
        have hbyte : (n % 256).toUInt8.toNat = n % 256 := by simp
        dsimp only
        rw [hbyte, Nat.mod_add_div]
        rfl

theorem exact_u8 : u8.Exact (· < UInt8.size) := exact_number 1

theorem exact_u16 : u16.Exact (· < UInt16.size) := exact_number 2

theorem exact_u32 : u32.Exact (· < UInt32.size) := exact_number 4

theorem exact_u64 : u64.Exact (· < UInt64.size) := exact_number 8

/-- Values that are kept as values of another type, if nothing is lost on the way. -/
theorem Exact.map (h : f.Exact ok) {toFormat : β → α} {ofFormat : α → β}
    (hβ : ∀ b, ofFormat (toFormat b) = b) (hα : ∀ a, ok a → toFormat (ofFormat a) = a) :
    (f.map toFormat ofFormat).Exact fun b => ok (toFormat b) := by
  intro bs b rest
  unfold Format.map
  dsimp only
  rw [h.bind_eq_ok]
  constructor
  · rintro ⟨a, rest', ⟨ha, rfl⟩, hb⟩
    obtain ⟨rfl, rfl⟩ := Prod.mk.inj (Except.ok.inj hb)
    rw [hα a ha]
    exact ⟨ha, rfl⟩
  · rintro ⟨hb, rfl⟩
    exact ⟨toFormat b, rest, ⟨hb, rfl⟩, by rw [hβ]; rfl⟩

theorem exact_word : word.Exact fun _ => True := by
  refine (exact_u64.map (fun w => ?_) fun n hn => ?_).congr fun w => ?_
  · simp
  · simpa using hn
  · simpa using w.toNat_lt

theorem exact_int : int.Exact fun _ => True := by
  refine exact_word.map (fun v => ?_) fun w _ => ?_
  · simp
  · simp

/-! ### Composite values -/

/-- The values that are read one after the other follow those already there. -/
theorem readMany_eq_ok (h : f.Exact ok) : ∀ {n : Nat} {done as : List α} {bs rest : Bytes},
    readMany f.read n done bs = .ok (as, rest) ↔
      ∃ more, as = done.reverse ++ more ∧ more.length = n ∧ (∀ a ∈ more, ok a) ∧
        bs = more.flatMap f.write ++ rest := by
  intro n
  induction n with
  | zero =>
    intro done as bs rest
    simp only [readMany, Except.ok.injEq, Prod.mk.injEq, List.length_eq_zero_iff]
    constructor
    · rintro ⟨rfl, rfl⟩
      exact ⟨[], by simp, rfl, by simp, by simp⟩
    · rintro ⟨more, rfl, rfl, _, rfl⟩
      simp
  | succ n ih =>
    intro done as bs rest
    rw [readMany, h.bind_eq_ok]
    constructor
    · rintro ⟨a, rest', ⟨ha, rfl⟩, hmany⟩
      obtain ⟨more, rfl, hlen, hall, rfl⟩ := ih.mp hmany
      refine ⟨a :: more, by simp, by simp [hlen], ?_, by simp⟩
      simpa [ha] using hall
    · rintro ⟨more, rfl, hlen, hall, rfl⟩
      obtain ⟨a, more, rfl⟩ := List.exists_cons_of_length_eq_add_one hlen
      obtain ⟨ha, hall⟩ := List.forall_mem_cons.mp hall
      refine ⟨a, more.flatMap f.write ++ rest, ⟨ha, by simp⟩, ih.mpr ⟨more, by simp, ?_, hall, rfl⟩⟩
      simpa using hlen

theorem Exact.sequence (h : f.Exact ok) :
    f.sequence.Exact fun as => as.length < UInt64.size ∧ ∀ a ∈ as, ok a := by
  intro bs as rest
  unfold Format.sequence
  dsimp only
  rw [exact_u64.bind_eq_ok]
  constructor
  · rintro ⟨n, rest', ⟨hn, rfl⟩, hmany⟩
    obtain ⟨more, rfl, rfl, hall, rfl⟩ := (readMany_eq_ok h).mp hmany
    exact ⟨⟨hn, hall⟩, by simp⟩
  · rintro ⟨⟨hlen, hall⟩, rfl⟩
    refine ⟨as.length, as.flatMap f.write ++ rest, ⟨hlen, by simp⟩, ?_⟩
    exact (readMany_eq_ok h).mpr ⟨as, by simp, rfl, hall, rfl⟩

theorem Exact.array (h : f.Exact ok) :
    f.array.Exact fun as => as.size < UInt64.size ∧ ∀ a ∈ as, ok a := by
  refine (h.sequence.map (fun as => ?_) fun as _ => ?_).congr fun as => ?_
  · simp
  · simp
  · simp

theorem exact_readBytes (n : Nat) : (Format.mk id (readBytes n)).Exact (·.length = n) := by
  intro bs front rest
  dsimp only [id]
  unfold readBytes
  dsimp only
  constructor
  · intro h
    split at h
    · next hlen =>
      obtain ⟨rfl, rfl⟩ := Prod.mk.inj (Except.ok.inj h)
      exact ⟨hlen, (List.take_append_drop n bs).symm⟩
    · cases h
  · rintro ⟨rfl, rfl⟩
    simp

theorem ofBytes_eq_ok {bytes : Bytes} {s : String} :
    Text.ofBytes bytes = .ok s ↔ bytes = Text.toBytes s := by
  unfold Text.ofBytes Text.toBytes String.fromUTF8? String.toUTF8
  by_cases hvalid : (ByteArray.mk bytes.toArray).IsValidUTF8
  · rw [dif_pos hvalid]
    dsimp only
    rw [Except.ok.injEq, ← String.toByteArray_inj]
    constructor
    · intro h
      rw [← h]
      rfl
    · rintro rfl
      rfl
  · rw [dif_neg hvalid]
    simp only [reduceCtorEq, false_iff]
    rintro rfl
    exact hvalid s.isValidUTF8

theorem exact_text : text.Exact fun s => (Text.toBytes s).length < UInt64.size := by
  intro bs s rest
  unfold text
  dsimp only
  rw [exact_u64.bind_eq_ok]
  constructor
  · rintro ⟨n, rest', ⟨hn, rfl⟩, hread⟩
    obtain ⟨bytes, rest'', ⟨rfl, rfl⟩, hs⟩ := (exact_readBytes n).bind_eq_ok.mp hread
    dsimp only at hs
    split at hs
    · next s' hspell =>
      obtain ⟨rfl, rfl⟩ := Prod.mk.inj (Except.ok.inj hs)
      obtain rfl := ofBytes_eq_ok.mp hspell
      exact ⟨hn, by simp⟩
    · cases hs
  · rintro ⟨hlen, rfl⟩
    refine ⟨_, Text.toBytes s ++ rest, ⟨hlen, by simp⟩, ?_⟩
    refine (exact_readBytes _).bind_eq_ok.mpr ⟨_, rest, ⟨rfl, rfl⟩, ?_⟩
    dsimp only
    rw [ofBytes_eq_ok.mpr rfl]
    rfl

theorem Exact.optional (h : f.Exact ok) : f.optional.Exact fun o => ∀ a ∈ o, ok a := by
  intro bs o rest
  unfold Format.optional
  dsimp only
  rw [exact_u8.bind_eq_ok]
  constructor
  · rintro ⟨byte, rest', ⟨_, rfl⟩, hread⟩
    dsimp only at hread
    split at hread
    · obtain ⟨rfl, rfl⟩ := Prod.mk.inj (Except.ok.inj hread)
      exact ⟨by simp, rfl⟩
    · obtain ⟨a, rest'', ⟨ha, rfl⟩, ha'⟩ := h.bind_eq_ok.mp hread
      obtain ⟨rfl, rfl⟩ := Prod.mk.inj (Except.ok.inj ha')
      exact ⟨by simpa using ha, by simp⟩
    · cases hread
  · rintro ⟨hok, rfl⟩
    cases o with
    | none => exact ⟨0, rest, ⟨by decide, rfl⟩, rfl⟩
    | some a =>
      refine ⟨1, f.write a ++ rest, ⟨by decide, by simp⟩, ?_⟩
      exact h.bind_eq_ok.mpr ⟨a, rest, ⟨hok a rfl, rfl⟩, rfl⟩

theorem exact_choice [DecidableEq α] {all : List α} (hall : ∀ a, a ∈ all) (hnodup : all.Nodup)
    (hlen : all.length ≤ UInt32.size) : (choice all).Exact fun _ => True := by
  intro bs a rest
  have hidx : all.idxOf a < all.length := List.idxOf_lt_length_of_mem (hall a)
  unfold choice
  dsimp only
  rw [exact_u32.bind_eq_ok]
  constructor
  · rintro ⟨number, rest', ⟨_, rfl⟩, h⟩
    dsimp only at h
    split at h
    · next b hb =>
      obtain ⟨rfl, rfl⟩ := Prod.mk.inj (Except.ok.inj h)
      obtain ⟨hlt, rfl⟩ := List.getElem?_eq_some_iff.mp hb
      rw [hnodup.idxOf_getElem]
      exact ⟨trivial, rfl⟩
    · cases h
  · rintro ⟨_, rfl⟩
    refine ⟨all.idxOf a, rest, ⟨by omega, rfl⟩, ?_⟩
    have hget : all[all.idxOf a]? = some a := by
      rw [List.getElem?_eq_getElem hidx, List.getElem_idxOf]
    dsimp only
    rw [hget]
    rfl

end

end Format

end Quill.Wire
