import Quill.Lowering.Template
import Quill.Proofs.Decimal.Whole
import Quill.Proofs.Machine.Effect

/-! # Integers and their texts

`tostr` of an integer becomes `intToStr`, which leaves the decimal text of the integer, and `toint`
becomes `parseInt`, which leaves the integer that its operand denotes.  `Denotes` says which integer
that is: the one that the text spells, where blanks may stand around the spelling.  A text that
denotes no signed word is a malformed number, and the fault has the text as it was read
(`integerTexts_exact`). -/

namespace Quill.Machine

open Code

/-- The text spells the integer, with blanks around it. -/
def Denotes (text : String) (z : Int) : Prop :=
  ∃ core, Text.Padded text.toList core ∧ Decimal.Spells core z

theorem denotes_iff {text : String} {z : Int} :
    Denotes text z ↔ Decimal.Spells (Text.trim text.toList) z :=
  Text.padded_iff (P := fun core => Decimal.Spells core z) (fun _ => Decimal.Spells.tight) _

/-! ### Reading a text -/

theorem parseInt_eq_ok_iff {text : String} {n : Int64} :
    parseInt text = .ok n ↔ Denotes text n.toInt := by
  rw [denotes_iff, ← Decimal.toInt64?_eq_some_iff]
  unfold parseInt
  cases Decimal.toInt64? (Text.trim text.toList) <;> simp

theorem exists_toInt_iff {P : Int → Prop} :
    (∃ n : Int64, P n.toInt) ↔ ∃ z, P z ∧ -2 ^ 63 ≤ z ∧ z ≤ 2 ^ 63 - 1 := by
  constructor
  · rintro ⟨n, hn⟩
    exact ⟨n.toInt, hn, n.le_toInt, Int.le_sub_one_of_lt n.toInt_lt⟩
  · rintro ⟨z, hz, hlow, hhigh⟩
    refine ⟨Int64.ofInt z, ?_⟩
    rwa [Int64.toInt_ofInt_of_le hlow (Int.lt_of_le_sub_one hhigh)]

theorem parseInt_eq_error_iff {text : String} :
    parseInt text = .error (.malformedNumber text "integer") ↔
      ¬∃ z, Denotes text z ∧ -2 ^ 63 ≤ z ∧ z ≤ 2 ^ 63 - 1 := by
  have hnone : (¬∃ n : Int64, Denotes text n.toInt) ↔
      Decimal.toInt64? (Text.trim text.toList) = none := by
    simp only [denotes_iff, ← Decimal.toInt64?_eq_some_iff, ← Option.isSome_iff_exists,
      Option.not_isSome_iff_eq_none]
  rw [← exists_toInt_iff, hnone]
  unfold parseInt
  cases Decimal.toInt64? (Text.trim text.toList) <;> simp

/-- The decimal text of an integer denotes it, and so does the text with blanks around it. -/
theorem denotes_ofInt (z : Int) {u v : String} (hu : Text.Blank u.toList) (hv : Text.Blank v.toList) :
    Denotes (u ++ Decimal.ofInt z ++ v) z :=
  ⟨(Decimal.ofInt z).toList, ⟨u.toList, v.toList, hu, hv, by simp only [String.toList_append]⟩,
    Decimal.spells_ofInt z⟩

/-! ### The instructions -/

variable {m : Method} {s : State} {rest : Array Value}

theorem pop_bind_push (hbase : s.frame.base ≤ rest.size) (v : Value) (g : Value → Action α) :
    (pop m >>= g) { s with stack := rest.push v } = g v { s with stack := rest } := by
  have hsize : ¬(rest.push v).size ≤ s.frame.base := by
    rw [Array.size_push]
    omega
  rw [bind_run]
  simp only [pop, if_neg hsize, Array.back?_push, Array.pop_push]

theorem intrinsic_intToStr (hbase : s.frame.base ≤ rest.size) (n : Int64) :
    intrinsic m .intToStr { s with stack := rest.push (.int n) } =
      .ok () { s with stack := rest.push (.str (Decimal.ofInt n.toInt)) } := by
  simp only [intrinsic, popInt, bind_assoc]
  rw [pop_bind_push hbase]
  rfl

theorem intrinsic_parseInt (hbase : s.frame.base ≤ rest.size) (text : String) :
    intrinsic m .parseInt { s with stack := rest.push (.str text) } =
      match parseInt text with
      | .ok n => .ok () { s with stack := rest.push (.int n) }
      | .error e => .error e { s with stack := rest } := by
  simp only [intrinsic, popStr, bind_assoc]
  rw [pop_bind_push hbase]
  show (ofExcept (parseInt text) >>= _) _ = _
  cases parseInt text <;> rfl

theorem step_parseInt_eq_ok_iff {p : Image} {hosts : Hosts} (hbase : s.frame.base ≤ rest.size)
    (text : String) (n : Int64) :
    step p hosts m (.intrinsic .parseInt) { s with stack := rest.push (.str text) } =
      .ok () { s with stack := rest.push (.int n) } ↔ Denotes text n.toInt := by
  show intrinsic m .parseInt _ = _ ↔ _
  rw [intrinsic_parseInt hbase, ← parseInt_eq_ok_iff]
  cases parseInt text <;> simp [Array.push_eq_push]

theorem step_parseInt_eq_error_iff {p : Image} {hosts : Hosts} (hbase : s.frame.base ≤ rest.size)
    (text : String) :
    step p hosts m (.intrinsic .parseInt) { s with stack := rest.push (.str text) } =
      .error (.malformedNumber text "integer") { s with stack := rest } ↔
        ¬∃ z, Denotes text z ∧ -2 ^ 63 ≤ z ∧ z ≤ 2 ^ 63 - 1 := by
  show intrinsic m .parseInt _ = _ ↔ _
  rw [intrinsic_parseInt hbase, ← parseInt_eq_error_iff]
  cases parseInt text <;> simp

/-- `toint` undoes `tostr` on every integer, with blanks around its text or without, and it reads
exactly the texts that denote a signed word; every other text is a malformed number. -/
theorem integerTexts_exact (p : Image) (hosts : Hosts) (m : Method) {s : State}
    {rest : Array Value} (hbase : s.frame.base ≤ rest.size) :
    (Lowering.template? "tostr" [.integer] = some (.ok [.intrinsic .intToStr]) ∧
      Lowering.template? "toint" [.string] = some (.ok [.intrinsic .parseInt])) ∧
    (∀ n : Int64, ∃ text,
      step p hosts m (.intrinsic .intToStr) { s with stack := rest.push (.int n) } =
        .ok () { s with stack := rest.push (.str text) } ∧
      ∀ u v : String, Text.Blank u.toList → Text.Blank v.toList →
        step p hosts m (.intrinsic .parseInt) { s with stack := rest.push (.str (u ++ text ++ v)) } =
          .ok () { s with stack := rest.push (.int n) }) ∧
    (∀ (text : String) (n : Int64),
      step p hosts m (.intrinsic .parseInt) { s with stack := rest.push (.str text) } =
        .ok () { s with stack := rest.push (.int n) } ↔ Denotes text n.toInt) ∧
    ∀ text : String,
      step p hosts m (.intrinsic .parseInt) { s with stack := rest.push (.str text) } =
        .error (.malformedNumber text "integer") { s with stack := rest } ↔
          ¬∃ z, Denotes text z ∧ -2 ^ 63 ≤ z ∧ z ≤ 2 ^ 63 - 1 := by
  refine ⟨⟨rfl, rfl⟩, fun n => ⟨Decimal.ofInt n.toInt, intrinsic_intToStr hbase n, ?_⟩,
    step_parseInt_eq_ok_iff hbase, step_parseInt_eq_error_iff hbase⟩
  intro u v hu hv
  exact (step_parseInt_eq_ok_iff hbase _ n).mpr (denotes_ofInt n.toInt hu hv)

/-- The least integer is read between blanks, and the text of the integer after the greatest one is
malformed. -/
theorem leastInteger_read :
    (default : State).frame.base ≤ (#[] : Array Value).size ∧
    step default Hosts.standard default (.intrinsic .parseInt)
        { (default : State) with stack := #[.str " -9223372036854775808\n"] } =
      .ok () { (default : State) with stack := #[.int Int64.minValue] } ∧
    step default Hosts.standard default (.intrinsic .parseInt)
        { (default : State) with stack := #[.str "9223372036854775808"] } =
      .error (.malformedNumber "9223372036854775808" "integer")
        { (default : State) with stack := #[] } := by
  have hbase : (default : State).frame.base ≤ (#[] : Array Value).size := Nat.le_refl 0
  have hexact := integerTexts_exact default Hosts.standard default (s := default) hbase
  obtain ⟨-, -, hok, herror⟩ := hexact
  refine ⟨hbase, (hok _ _).mpr ?_, (herror _).mpr ?_⟩
  · rw [← parseInt_eq_ok_iff]
    rfl
  · rw [← parseInt_eq_error_iff]
    rfl

end Quill.Machine
