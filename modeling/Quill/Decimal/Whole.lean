/-! # Whole numbers in decimal

`ofInt` writes an integer with its shortest digits and a minus sign for negative values;
`toNatBelow?` reads at least one ASCII digit, and `toNatBelow?_eq_some_iff` says which texts it
accepts.  `toInt64?` and `toWord?` read the numbers that fit a signed or an unsigned word of
64 bits, after an optional sign. -/

namespace Quill.Decimal

def ofInt (n : Int) : String := toString n

/-- The decimal text of a natural number. -/
def ofNat (n : Nat) : String := toString n

/-- The value of digits that continue those of `n`; `none` as soon as it reaches the bound, so
that no large number is computed, or at a character that is no digit. -/
def continueBelow? (bound n : Nat) : List Char → Option Nat
  | [] => some n
  | c :: cs =>
    let next := 10 * n + (c.toNat - '0'.toNat)
    if c.isDigit ∧ next < bound then continueBelow? bound next cs else none

/-- The value of a nonempty run of ASCII digits, if it lies below a bound. -/
def toNatBelow? (bound : Nat) (cs : List Char) : Option Nat :=
  if cs.isEmpty then none else continueBelow? bound 0 cs

/-- The number of nonnegative values of a signed word. -/
def signedHalf : Nat := 0x8000000000000000

/-- The value of a text that spells a signed word. -/
def toInt64? : List Char → Option Int64
  | '-' :: cs => (toNatBelow? (signedHalf + 1) cs).map fun n => Int64.ofInt (-n)
  | '+' :: cs => (toNatBelow? signedHalf cs).map fun n => Int64.ofInt n
  | cs => (toNatBelow? signedHalf cs).map fun n => Int64.ofInt n

/-- The value of a text that spells an unsigned word: a plus sign is allowed, a minus is not. -/
def toWord? : List Char → Option Nat
  | '+' :: cs => toNatBelow? UInt64.size cs
  | cs => toNatBelow? UInt64.size cs

/-! ### Which texts are read -/

theorem le_ofDigitChars (n : Nat) (cs : List Char) : n ≤ Nat.ofDigitChars 10 cs n := by
  induction cs generalizing n with
  | nil => simp
  | cons c cs ih =>
    rw [Nat.ofDigitChars_cons]
    exact Nat.le_trans (by omega) (ih _)

/-- Reading on gives the value of all digits, if it lies below the bound. -/
theorem continueBelow?_eq_some_iff {bound n m : Nat} {cs : List Char} (h : n < bound) :
    continueBelow? bound n cs = some m ↔
      (∀ c ∈ cs, c.isDigit) ∧ Nat.ofDigitChars 10 cs n = m ∧ m < bound := by
  induction cs generalizing n with
  | nil => simp [continueBelow?]; omega
  | cons c cs ih =>
    simp only [continueBelow?, Nat.ofDigitChars_cons, List.forall_mem_cons]
    have hle := le_ofDigitChars (10 * n + (c.toNat - '0'.toNat)) cs
    split
    · rename_i hc
      rw [ih hc.2]
      simp [hc.1]
    · rename_i hc
      constructor
      · intro hm
        cases hm
      · rintro ⟨⟨hd, _⟩, rfl, hm⟩
        exact absurd ⟨hd, Nat.lt_of_le_of_lt hle hm⟩ hc

/-- The texts read are the nonempty runs of digits with a value below the bound. -/
theorem toNatBelow?_eq_some_iff {bound m : Nat} {cs : List Char} (h : 0 < bound) :
    toNatBelow? bound cs = some m ↔
      cs ≠ [] ∧ (∀ c ∈ cs, c.isDigit) ∧ Nat.ofDigitChars 10 cs 0 = m ∧ m < bound := by
  cases cs with
  | nil => simp [toNatBelow?]
  | cons c cs => simp only [toNatBelow?, List.isEmpty_cons, Bool.false_eq_true, ite_false, ne_eq,
      reduceCtorEq, not_false_eq_true, true_and, continueBelow?_eq_some_iff h]

end Quill.Decimal
