import Mathlib.Algebra.Group.Int.Defs
import Quill.Decimal.Whole
import Quill.Proofs.Text.Trim

/-! # Which texts are integers

`Decimal.Spells` says which integer a text spells: digits with the value that they have in base
ten, after an optional sign.  Reading a signed word takes exactly the texts that spell one of its
values (`toInt64?_eq_some_iff`), and an integer is spelled by the text that is written for it
(`spells_ofInt`). -/

namespace Quill.Decimal

def IsNumeral (ds : List Char) : Prop := ds ≠ [] ∧ ∀ c ∈ ds, c.isDigit = true

def numeralValue (ds : List Char) : Nat := Nat.ofDigitChars 10 ds 0

/-- The integers that texts spell: digits after an optional sign. -/
inductive Spells : List Char → Int → Prop
  | unsigned {ds : List Char} (h : IsNumeral ds) : Spells ds (numeralValue ds)
  | plus {ds : List Char} (h : IsNumeral ds) : Spells ('+' :: ds) (numeralValue ds)
  | minus {ds : List Char} (h : IsNumeral ds) : Spells ('-' :: ds) (-(numeralValue ds))

/-! ### Characters -/

theorem isBlank_of_isDigit {c : Char} (h : c.isDigit = true) : Text.isBlank c = false := by
  have hrange : 48 ≤ c.toNat ∧ c.toNat ≤ 57 := by
    simpa [Char.isDigit, Char.le_def, UInt32.le_iff_toNat_le] using h
  simp only [Text.isBlank, Bool.or_eq_false_iff, Bool.and_eq_false_imp, decide_eq_true_eq,
    decide_eq_false_iff_not, beq_eq_false_iff_ne]
  omega

theorem Spells.tight {core : List Char} {z : Int} (h : Spells core z) : Text.Tight core := by
  refine Text.tight_of_forall ?_
  cases h with
  | unsigned hds => exact fun c hc => isBlank_of_isDigit (hds.2 c hc)
  | plus hds | minus hds =>
    exact List.forall_mem_cons.mpr ⟨by decide, fun c hc => isBlank_of_isDigit (hds.2 c hc)⟩

/-! ### Reading -/

theorem spells_minus_iff {ds : List Char} {z : Int} :
    Spells ('-' :: ds) z ↔ IsNumeral ds ∧ z = -(numeralValue ds) := by
  constructor
  · intro h
    cases h with
    | unsigned hds => exact absurd (hds.2 '-' List.mem_cons_self) (by decide)
    | minus hds => exact ⟨hds, rfl⟩
  · rintro ⟨hds, rfl⟩
    exact .minus hds

theorem spells_plus_iff {ds : List Char} {z : Int} :
    Spells ('+' :: ds) z ↔ IsNumeral ds ∧ z = numeralValue ds := by
  constructor
  · intro h
    cases h with
    | unsigned hds => exact absurd (hds.2 '+' List.mem_cons_self) (by decide)
    | plus hds => exact ⟨hds, rfl⟩
  · rintro ⟨hds, rfl⟩
    exact .plus hds

theorem spells_unsigned_iff {cs : List Char} {z : Int} (hminus : ∀ ds, cs ≠ '-' :: ds)
    (hplus : ∀ ds, cs ≠ '+' :: ds) : Spells cs z ↔ IsNumeral cs ∧ z = numeralValue cs := by
  constructor
  · intro h
    cases h with
    | unsigned hds => exact ⟨hds, rfl⟩
    | plus => exact absurd rfl (hplus _)
    | minus => exact absurd rfl (hminus _)
  · rintro ⟨hds, rfl⟩
    exact .unsigned hds

theorem Spells.unique {core : List Char} {y z : Int} (hy : Spells core y) (hz : Spells core z) :
    y = z := by
  cases hy with
  | unsigned hds =>
    have hsign {c : Char} (hc : c.isDigit = false) (cs : List Char) : core ≠ c :: cs := by
      rintro rfl
      rw [hds.2 c List.mem_cons_self] at hc
      cases hc
    exact ((spells_unsigned_iff (hsign (by decide)) (hsign (by decide))).mp hz).2.symm
  | plus => exact (spells_plus_iff.mp hz).2.symm
  | minus => exact (spells_minus_iff.mp hz).2.symm

/-- Digits with a value below a bound are read, where the values below the bound are those that a
sign brings into the range of a signed word. -/
theorem signed_toNatBelow?_eq_some_iff {bound : Nat} {sign : Int → Int} (hpos : 0 < bound)
    (hsign : ∀ m : Nat, m < bound ↔ -2 ^ 63 ≤ sign m ∧ sign m < 2 ^ 63) {ds : List Char}
    {n : Int64} :
    Option.map (fun z => Int64.ofInt (sign z)) (do
      let m ← toNatBelow? bound ds
      pure (m : Int)) = some n ↔ IsNumeral ds ∧ n.toInt = sign (numeralValue ds) := by
  simp only [Option.map_eq_some_iff, Option.bind_eq_bind, Option.bind_eq_some_iff, Option.pure_def,
    Option.some.injEq, toNatBelow?_eq_some_iff hpos]
  constructor
  · rintro ⟨_, ⟨m, ⟨hne, hdigits, rfl, hlt⟩, rfl⟩, rfl⟩
    obtain ⟨hlow, hhigh⟩ := (hsign _).mp hlt
    exact ⟨⟨hne, hdigits⟩, Int64.toInt_ofInt_of_le hlow hhigh⟩
  · rintro ⟨⟨hne, hdigits⟩, hn⟩
    have hlt : numeralValue ds < bound := by
      rw [hsign, ← hn]
      exact ⟨n.le_toInt, n.toInt_lt⟩
    refine ⟨numeralValue ds, ⟨numeralValue ds, ⟨hne, hdigits, rfl, hlt⟩, rfl⟩, ?_⟩
    rw [← hn, Int64.ofInt_toInt]

/-- A text is read as a word just if it spells the integer of the word. -/
theorem toInt64?_eq_some_iff {cs : List Char} {n : Int64} :
    toInt64? cs = some n ↔ Spells cs n.toInt := by
  have hhalf : ∀ m : Nat, m < signedHalf ↔ -2 ^ 63 ≤ (m : Int) ∧ (m : Int) < 2 ^ 63 := by
    unfold signedHalf
    omega
  have hhalfSucc : ∀ m : Nat, m < signedHalf + 1 ↔ -2 ^ 63 ≤ -(m : Int) ∧ -(m : Int) < 2 ^ 63 := by
    unfold signedHalf
    omega
  unfold toInt64?
  split
  · rw [signed_toNatBelow?_eq_some_iff (by decide) hhalfSucc, spells_minus_iff]
  · rw [signed_toNatBelow?_eq_some_iff (by decide) hhalf, spells_plus_iff]
  · next hminus hplus =>
    rw [signed_toNatBelow?_eq_some_iff (by decide) hhalf, spells_unsigned_iff hminus hplus]

/-! ### Writing -/

theorem isNumeral_repr (n : Nat) : IsNumeral n.repr.toList := by
  rw [Nat.toList_repr]
  exact ⟨Nat.toDigits_ne_nil, fun c hc => Nat.isDigit_of_mem_toDigits (by decide) (by decide) hc⟩

theorem numeralValue_repr (n : Nat) : numeralValue n.repr.toList = n := by
  rw [Nat.toList_repr, numeralValue, Nat.ofDigitChars_ten_toDigits]

theorem spells_ofInt (z : Int) : Spells (ofInt z).toList z := by
  cases z with
  | ofNat n =>
    have h := Spells.unsigned (isNumeral_repr n)
    rw [numeralValue_repr] at h
    exact h
  | negSucc n =>
    have h := Spells.minus (isNumeral_repr (n + 1))
    rw [numeralValue_repr] at h
    have htext : (ofInt (Int.negSucc n)).toList = '-' :: (n + 1).repr.toList := by
      show ("-" ++ (n + 1).repr).toList = _
      rw [String.toList_append]
      rfl
    rw [htext, Int.negSucc_eq, ← Int.natCast_succ]
    exact h

theorem ofInt_inj {y z : Int} : ofInt y = ofInt z ↔ y = z := by
  constructor
  · intro h
    have hy := spells_ofInt y
    rw [h] at hy
    exact hy.unique (spells_ofInt z)
  · rintro rfl
    rfl

end Quill.Decimal
