import Mathlib.Data.List.TakeWhile
import Quill.Text.Blank

/-! # Trimmed texts

A text is its trimmed text with blanks around it (`Padded`), and a trimmed text has no blank at
either end (`Tight`).  The two determine the trimmed text (`trim_eq_iff`), so a form of text that
is tight can be looked for between blanks instead of in the trimmed text (`padded_iff`). -/

namespace Quill.Text

/-- A text of blanks only. -/
def Blank (cs : List Char) : Prop := ∀ c ∈ cs, isBlank c = true

instance (cs : List Char) : Decidable (Blank cs) :=
  List.decidableBAll _ cs

/-- The first text is the second one with blanks around it. -/
def Padded (cs core : List Char) : Prop :=
  ∃ before after, Blank before ∧ Blank after ∧ cs = before ++ core ++ after

/-- No blank stands at either end of the text. -/
structure Tight (cs : List Char) : Prop where
  head : ∀ c ∈ cs.head?, isBlank c = false
  last : ∀ c ∈ cs.getLast?, isBlank c = false

theorem blank_nil : Blank [] := by
  intro c hc
  cases hc

theorem padded_self (cs : List Char) : Padded cs cs :=
  ⟨[], [], blank_nil, blank_nil, by simp⟩

theorem tight_of_forall {cs : List Char} (h : ∀ c ∈ cs, isBlank c = false) : Tight cs where
  head c hc := h c (List.mem_of_mem_head? hc)
  last c hc := h c (List.mem_of_mem_getLast? hc)

/-! ### One end -/

theorem trimStart_append {blanks : List Char} (h : Blank blanks) (cs : List Char) :
    trimStart (blanks ++ cs) = trimStart cs :=
  List.dropWhile_append_of_pos h

theorem trimStart_eq_self {cs : List Char} (h : ∀ c ∈ cs.head?, isBlank c = false) :
    trimStart cs = cs := by
  cases cs with
  | nil => rfl
  | cons c cs => exact List.dropWhile_cons_of_neg (by simp [h c rfl])

theorem trimStart_of_blank {cs : List Char} (h : Blank cs) : trimStart cs = [] :=
  List.dropWhile_eq_nil_iff.mpr h

/-- What is cut off at the front is blank, and what is left does not begin with a blank. -/
theorem exists_trimStart (cs : List Char) :
    (∃ blanks, Blank blanks ∧ cs = blanks ++ trimStart cs) ∧
      ∀ c ∈ (trimStart cs).head?, isBlank c = false := by
  refine ⟨⟨cs.takeWhile isBlank, fun c hc => List.mem_takeWhile_imp hc,
    List.takeWhile_append_dropWhile.symm⟩, fun c hc => ?_⟩
  have hhead := List.head?_dropWhile_not isBlank cs
  rw [show (cs.dropWhile isBlank).head? = some c from hc] at hhead
  exact hhead

theorem trimEnd_eq (cs : List Char) : trimEnd cs = (trimStart cs.reverse).reverse := rfl

theorem trimEnd_append {blanks : List Char} (h : Blank blanks) (cs : List Char) :
    trimEnd (cs ++ blanks) = trimEnd cs := by
  have hrev : Blank blanks.reverse := fun c hc => h c (List.mem_reverse.mp hc)
  rw [trimEnd_eq, List.reverse_append, trimStart_append hrev, trimEnd_eq]

theorem trimEnd_eq_self {cs : List Char} (h : ∀ c ∈ cs.getLast?, isBlank c = false) :
    trimEnd cs = cs := by
  rw [← List.head?_reverse] at h
  rw [trimEnd_eq, trimStart_eq_self h, List.reverse_reverse]

theorem exists_trimEnd (cs : List Char) :
    (∃ blanks, Blank blanks ∧ cs = trimEnd cs ++ blanks) ∧
      ∀ c ∈ (trimEnd cs).getLast?, isBlank c = false := by
  obtain ⟨⟨blanks, hblank, heq⟩, hhead⟩ := exists_trimStart cs.reverse
  refine ⟨⟨blanks.reverse, fun c hc => hblank c (List.mem_reverse.mp hc), ?_⟩, ?_⟩
  · rw [trimEnd_eq, ← List.reverse_append, ← heq, List.reverse_reverse]
  · rwa [trimEnd_eq, List.getLast?_reverse]

/-! ### Both ends -/

theorem padded_trim (cs : List Char) : Padded cs (trim cs) := by
  obtain ⟨before, hbefore, hstart⟩ := (exists_trimStart cs).1
  obtain ⟨after, hafter, hend⟩ := (exists_trimEnd (trimStart cs)).1
  refine ⟨before, after, hbefore, hafter, ?_⟩
  rw [List.append_assoc, trim, ← hend]
  exact hstart

theorem tight_trim (cs : List Char) : Tight (trim cs) where
  head c hc := by
    obtain ⟨after, -, heq⟩ := (exists_trimEnd (trimStart cs)).1
    have hc' : (trimEnd (trimStart cs)).head? = some c := hc
    refine (exists_trimStart cs).2 c ?_
    rw [heq, List.head?_append, hc', Option.some_or]
    rfl
  last := (exists_trimEnd (trimStart cs)).2

theorem trim_of_padded {cs core : List Char} (h : Padded cs core) (hcore : Tight core) :
    trim cs = core := by
  obtain ⟨before, after, hbefore, hafter, rfl⟩ := h
  rw [trim, List.append_assoc, trimStart_append hbefore]
  cases core with
  | nil =>
    rw [List.nil_append, trimStart_of_blank hafter]
    rfl
  | cons c core =>
    rw [trimStart_eq_self (by simpa using hcore.head), trimEnd_append hafter,
      trimEnd_eq_self hcore.last]

/-- The trimmed text is the tight text that the text is but for blanks around it. -/
theorem trim_eq_iff {cs core : List Char} : trim cs = core ↔ Padded cs core ∧ Tight core := by
  constructor
  · rintro rfl
    exact ⟨padded_trim cs, tight_trim cs⟩
  · rintro ⟨hpadded, htight⟩
    exact trim_of_padded hpadded htight

theorem padded_iff {P : List Char → Prop} (h : ∀ core, P core → Tight core) (cs : List Char) :
    (∃ core, Padded cs core ∧ P core) ↔ P (trim cs) := by
  constructor
  · rintro ⟨core, hpadded, hcore⟩
    rwa [trim_of_padded hpadded (h core hcore)]
  · intro hcore
    exact ⟨trim cs, padded_trim cs, hcore⟩

end Quill.Text
