import Mathlib.Data.List.Basic
import Quill.Proofs.Decimal.Whole

/-! # Texts with numbers in them

A phrase is a text with numbers at known places.  Where its words have no character that the
spelling of a number can have, and no two numbers stand side by side, the text of a phrase can be
read in one way only (`Phrase.eq_of_text_eq`). -/

namespace Quill.Decimal

/-- A text with numbers in it: words, and a number between each word and the next. -/
inductive Phrase where
  | word (word : String)
  | number (word : String) (number : Int) (rest : Phrase)
  deriving DecidableEq

namespace Phrase

def text : Phrase → String
  | .word w => w
  | .number w n rest => w ++ (ofInt n ++ rest.text)

def words : Phrase → List String
  | .word w => [w]
  | .number w _ rest => w :: rest.words

def numbers : Phrase → List Int
  | .word _ => []
  | .number _ n rest => n :: rest.numbers

end Phrase

/-- A character that the spelling of an integer can have. -/
def isNumeric (c : Char) : Bool := c.isDigit || c == '+' || c == '-'

/-- The word has no numeric character. -/
def Wordy (word : String) : Prop := ∀ c ∈ word.toList, isNumeric c = false

instance (word : String) : Decidable (Wordy word) := List.decidableBAll _ word.toList

/-- No word has a numeric character, and only the last word can be empty. -/
def Clear (words : List String) : Prop :=
  (∀ w ∈ words, Wordy w) ∧ ∀ w ∈ words.dropLast, w ≠ ""

instance (words : List String) : Decidable (Clear words) :=
  inferInstanceAs (Decidable (_ ∧ _))

/-! ### Numbers -/

theorem Spells.isNumeric {core : List Char} {z : Int} (h : Spells core z) :
    ∀ c ∈ core, isNumeric c = true := by
  have hdigits {ds : List Char} (hds : IsNumeral ds) : ∀ c ∈ ds, Decimal.isNumeric c = true := by
    intro c hc
    simp [Decimal.isNumeric, hds.2 c hc]
  cases h with
  | unsigned hds => exact hdigits hds
  | plus hds | minus hds => exact List.forall_mem_cons.mpr ⟨by decide, hdigits hds⟩

theorem Spells.ne_nil {core : List Char} {z : Int} (h : Spells core z) : core ≠ [] := by
  cases h with
  | unsigned hds => exact hds.1
  | plus hds | minus hds => exact List.cons_ne_nil _ _

theorem head_ofInt_append (z : Int) (cs : List Char) :
    ∀ c ∈ ((ofInt z).toList ++ cs).head?, isNumeric c = true := by
  intro c hc
  rw [List.head?_append_of_ne_nil _ (spells_ofInt z).ne_nil] at hc
  exact (spells_ofInt z).isNumeric c (List.mem_of_mem_head? hc)

/-! ### Reading a phrase -/

/-- Where a property of characters ends, a text can be cut in one way. -/
theorem append_inj_of_forall {p : Char → Bool} {as as' bs bs' : List Char}
    (has : ∀ c ∈ as, p c = true) (has' : ∀ c ∈ as', p c = true)
    (hbs : ∀ c ∈ bs.head?, p c = false) (hbs' : ∀ c ∈ bs'.head?, p c = false)
    (h : as ++ bs = as' ++ bs') : as = as' ∧ bs = bs' := by
  have hcut {as bs : List Char} (has : ∀ c ∈ as, p c = true)
      (hbs : ∀ c ∈ bs.head?, p c = false) : (as ++ bs).takeWhile p = as := by
    rw [List.takeWhile_append_of_pos has]
    cases bs with
    | nil => simp
    | cons b bs => simp [hbs b rfl]
  have hleft : as = as' := by
    rw [← hcut has hbs, h, hcut has' hbs']
  subst hleft
  exact ⟨rfl, List.append_cancel_left h⟩

theorem Phrase.words_ne_nil (p : Phrase) : p.words ≠ [] := by
  cases p <;> exact List.cons_ne_nil _ _

theorem clear_number_iff {w : String} {n : Int} {rest : Phrase} :
    Clear (Phrase.number w n rest).words ↔ Wordy w ∧ w ≠ "" ∧ Clear rest.words := by
  simp only [Clear, Phrase.words, List.forall_mem_cons,
    List.dropLast_cons_of_ne_nil rest.words_ne_nil]
  constructor
  · rintro ⟨⟨hw, hrest⟩, hne, happart⟩
    exact ⟨hw, hne, hrest, happart⟩
  · rintro ⟨hw, hne, hrest, happart⟩
    exact ⟨⟨hw, hrest⟩, hne, happart⟩

theorem Clear.head_text {p : Phrase} (h : Clear p.words) :
    ∀ c ∈ p.text.toList.head?, isNumeric c = false := by
  cases p with
  | word w => exact fun c hc => h.1 w List.mem_cons_self c (List.mem_of_mem_head? hc)
  | number w n rest =>
    obtain ⟨hw, hne, -⟩ := clear_number_iff.mp h
    intro c hc
    have hlist : w.toList ≠ [] := by simpa using hne
    rw [Phrase.text, String.toList_append, List.head?_append_of_ne_nil _ hlist] at hc
    exact hw c (List.mem_of_mem_head? hc)

/-- A word without numeric characters is not the text of a phrase with a number. -/
theorem text_number_ne {w w' : String} (hw : Wordy w) (n : Int) (rest : Phrase) :
    (Phrase.number w' n rest).text ≠ w := by
  intro h
  obtain ⟨c, hc⟩ := List.exists_mem_of_ne_nil _ (spells_ofInt n).ne_nil
  have hmem : c ∈ w.toList := by
    simp [← h, Phrase.text, String.toList_append, hc]
  have hnumeric := (spells_ofInt n).isNumeric c hc
  rw [hw c hmem] at hnumeric
  cases hnumeric

theorem Phrase.head_words_prefix {p : Phrase} {w : String} (h : w ∈ p.words.head?) :
    w.toList <+: p.text.toList := by
  cases p with
  | word w' =>
    cases h
    exact List.prefix_rfl
  | number w' n rest =>
    cases h
    rw [Phrase.text, String.toList_append]
    exact List.prefix_append _ _

theorem Phrase.eq_of_text_eq {p q : Phrase} (hp : Clear p.words) (hq : Clear q.words)
    (h : p.text = q.text) : p = q := by
  induction p generalizing q with
  | word w =>
    cases q with
    | word w' => exact congrArg _ h
    | number w' n rest => exact absurd h.symm (text_number_ne (hp.1 w List.mem_cons_self) n rest)
  | number w n rest ih =>
    cases q with
    | word w' => exact absurd h (text_number_ne (hq.1 w' List.mem_cons_self) n rest)
    | number w' n' rest' =>
      obtain ⟨hw, -, hrest⟩ := clear_number_iff.mp hp
      obtain ⟨hw', -, hrest'⟩ := clear_number_iff.mp hq
      replace h := congrArg String.toList h
      simp only [text, String.toList_append] at h
      obtain ⟨hword, hfollowing⟩ := append_inj_of_forall (p := fun c => !isNumeric c)
        (by simpa [Wordy] using hw) (by simpa [Wordy] using hw') (by simpa using head_ofInt_append n _)
        (by simpa using head_ofInt_append n' _) h
      obtain ⟨hnumber, htext⟩ := append_inj_of_forall (spells_ofInt n).isNumeric
        (spells_ofInt n').isNumeric hrest.head_text hrest'.head_text hfollowing
      rw [String.toList_inj] at hword hnumber htext
      rw [hword, ofInt_inj.mp hnumber, ih hrest hrest' htext]

end Quill.Decimal
