import Mathlib.Data.List.Nodup
import Quill.Code.Listing
import Quill.Proofs.Decimal.Phrase

/-! # Listings can be read in one way

The text of an instruction is a phrase: its words say which instruction it is, and its numbers are
the operands.  There are finitely many choices of words (`blanks`), all clear and all different, so
instructions with one text are equal, and so are codes with the same lines.  `pushFloat` is left
out, since all bits that stand for no number have one text. -/

namespace Quill.Code

open Decimal

namespace Instr

/-- The text of an instruction with its numbers taken apart from its words. -/
def phrase : Instr → Phrase
  | .label l => .number "L" l (.word ":")
  | .pushInt v => .number "push.i " v.toInt (.word "")
  | .pushStr s => .number "push.s #" s (.word "")
  | .loadArg slot => .number "ldarg " slot (.word "")
  | .storeArg slot => .number "starg " slot (.word "")
  | .loadLocal slot => .number "ldloc " slot (.word "")
  | .storeLocal slot => .number "stloc " slot (.word "")
  | .branchCmp cond ty target =>
    .number s!"b{condMnemonic cond}.{numericSuffix ty} L" target (.word "")
  | .branchIfTrue target => .number "brtrue L" target (.word "")
  | .jump target => .number "jmp L" target (.word "")
  | .newArray element rank => .number s!"newarr {element.name} " rank (.word "")
  | .arrayGet rank => .number "arrget " rank (.word "")
  | .arraySet rank => .number "arrset " rank (.word "")
  | .call method argc => .number "call m" method (.number " " argc (.word ""))
  | .callHost routine => .number "callhost h" routine (.word "")
  | i => .word i.text

/-- The instruction with other numbers as operands. -/
def refill : Instr → List Int → Instr
  | .label _, [l] => .label l.toNat
  | .pushInt _, [v] => .pushInt (Int64.ofInt v)
  | .pushStr _, [s] => .pushStr s.toNat
  | .loadArg _, [slot] => .loadArg slot.toNat
  | .storeArg _, [slot] => .storeArg slot.toNat
  | .loadLocal _, [slot] => .loadLocal slot.toNat
  | .storeLocal _, [slot] => .storeLocal slot.toNat
  | .branchCmp cond ty _, [target] => .branchCmp cond ty target.toNat
  | .branchIfTrue _, [target] => .branchIfTrue target.toNat
  | .jump _, [target] => .jump target.toNat
  | .newArray element _, [rank] => .newArray element rank.toNat
  | .arrayGet _, [rank] => .arrayGet rank.toNat
  | .arraySet _, [rank] => .arraySet rank.toNat
  | .call _ _, [method, argc] => .call method.toNat argc.toNat
  | .callHost _, [routine] => .callHost routine.toNat
  | i, _ => i

/-- The instruction with zeros as operands. -/
def blank (i : Instr) : Instr := i.refill (i.phrase.numbers.map fun _ => 0)

/-- The instructions with zeros as operands, other than `pushFloat`. -/
def blanks : List Instr :=
  [.nop, .label 0, .pushInt 0, .pushStr 0, .loadArg 0, .storeArg 0, .loadLocal 0, .storeLocal 0,
    .intToFloat, .concat, .strEq, .branchIfTrue 0, .jump 0, .loadElem, .storeElem, .arrayGet 0,
    .arraySet 0, .call 0 0, .callHost 0, .pop, .ret] ++
  [ArithOp.add, .sub, .mul, .div].flatMap (fun op => [arith op .integer, arith op .float]) ++
  [Comparison.lt, .gt, .le, .ge, .eq, .ne].flatMap
    (fun cond => [branchCmp cond .integer 0, branchCmp cond .float 0]) ++
  [Element.integer, .float, .string, .boolean].map (fun element => newArray element 0) ++
  [Intrinsic.print, .printLn, .readLn, .intToStr, .floatToStr, .boolToStr, .parseInt, .parseFloat,
    .strLen, .arrayLen, .charAt].map intrinsic

/-- The instruction is not a `pushFloat`. -/
def FloatFree (i : Instr) : Prop := ∀ bits, i ≠ .pushFloat bits

/-! ### Words and numbers -/

theorem text_phrase (i : Instr) : i.phrase.text = i.text := by
  cases i <;>
    simp only [phrase, text, Phrase.text, String.append_assoc, String.append_empty] <;> rfl

theorem words_blank (i : Instr) : i.blank.phrase.words = i.phrase.words := by
  cases i <;> rfl

theorem refill_blank (i : Instr) : i.blank.refill i.phrase.numbers = i := by
  cases i <;> simp [blank, refill, phrase, Phrase.numbers]

theorem blank_mem {i : Instr} (h : i.FloatFree) : i.blank ∈ blanks := by
  -- The operands are replaced by zeros without being looked at, so the membership is computed.
  cases i with
  | pushFloat bits => exact absurd rfl (h bits)
  | arith op ty => cases op <;> cases ty <;> exact of_decide_eq_true rfl
  | branchCmp cond ty target => cases cond <;> cases ty <;> exact of_decide_eq_true rfl
  | newArray element rank => cases element <;> exact of_decide_eq_true rfl
  | intrinsic operation => cases operation <;> exact of_decide_eq_true rfl
  | _ => exact of_decide_eq_true rfl

theorem blanks_clear : ∀ i ∈ blanks, Clear i.phrase.words := by decide +kernel

theorem blanks_words_nodup : (blanks.map fun i => i.phrase.words).Nodup := by decide +kernel

/-- The first word of no other instruction agrees with the word of `pushFloat`. -/
theorem blanks_head_words : ∀ i ∈ blanks, ∀ w ∈ i.phrase.words.head?,
    ¬w.toList <+: "push.f ".toList ∧ ¬"push.f ".toList <+: w.toList := by decide +kernel

theorem FloatFree.clear {i : Instr} (h : i.FloatFree) : Clear i.phrase.words := by
  rw [← words_blank]
  exact blanks_clear _ (blank_mem h)

/-! ### Instructions -/

/-- Instructions other than `pushFloat` with one text are equal. -/
theorem eq_of_text_eq {a b : Instr} (ha : a.FloatFree) (hb : b.FloatFree) (h : a.text = b.text) :
    a = b := by
  have hphrase : a.phrase = b.phrase :=
    Phrase.eq_of_text_eq ha.clear hb.clear (by rw [text_phrase, text_phrase, h])
  have hblank : a.blank = b.blank :=
    List.inj_on_of_nodup_map blanks_words_nodup (blank_mem ha) (blank_mem hb)
      (by rw [words_blank, words_blank, hphrase])
  calc a = a.blank.refill a.phrase.numbers := (refill_blank a).symm
    _ = b.blank.refill b.phrase.numbers := by rw [hblank, hphrase]
    _ = b := refill_blank b

theorem FloatFree.text_ne {a : Instr} (ha : a.FloatFree) (bits : UInt64) :
    a.text ≠ (pushFloat bits).text := by
  intro h
  obtain ⟨w, hw⟩ : ∃ w, w ∈ a.phrase.words.head? :=
    Option.isSome_iff_exists.mp (List.isSome_head?.mpr a.phrase.words_ne_nil)
  have hword : w.toList <+: a.text.toList := by
    rw [← text_phrase]
    exact Phrase.head_words_prefix hw
  have hfloat : "push.f ".toList <+: a.text.toList := by
    rw [h, text, String.toList_append]
    exact List.prefix_append _ _
  rw [← words_blank] at hw
  obtain ⟨hne, hne'⟩ := blanks_head_words _ (blank_mem ha) w hw
  exact (List.prefix_or_prefix_of_prefix hword hfloat).elim hne hne'

/-! ### Lines -/

theorem label_or_indented (i : Instr) : (∃ l, i = .label l) ∨ i.line = "    " ++ i.text := by
  cases i with
  | label l => exact .inl ⟨l, rfl⟩
  | _ => exact .inr rfl

theorem line_label_ne (l : Nat) (text : String) : (label l).line ≠ "    " ++ text := by
  intro h
  have hhead : ("L" ++ toString l ++ ":").toList.head? = ("    " ++ text).toList.head? :=
    congrArg (fun line : String => line.toList.head?) h
  simp [String.toList_append] at hhead

theorem eq_of_line_eq {a b : Instr} (ha : a.FloatFree) (hb : b.FloatFree) (h : a.line = b.line) :
    a = b := by
  refine eq_of_text_eq ha hb ?_
  rcases label_or_indented a with ⟨l, rfl⟩ | hline <;>
    rcases label_or_indented b with ⟨l', rfl⟩ | hline'
  · exact h
  · exact absurd (h.trans hline') (line_label_ne l _)
  · exact absurd (h.symm.trans hline) (line_label_ne l' _)
  · rw [hline, hline', ← String.toList_inj, String.toList_append, String.toList_append] at h
    exact String.toList_inj.mp (List.append_cancel_left h)

theorem eq_of_map_line_eq {as bs : List Instr} (ha : ∀ a ∈ as, a.FloatFree)
    (hb : ∀ b ∈ bs, b.FloatFree) (h : as.map line = bs.map line) : as = bs := by
  induction as generalizing bs with
  | nil => exact (List.map_eq_nil_iff.mp h.symm).symm
  | cons a as ih =>
    cases bs with
    | nil => cases h
    | cons b bs =>
      obtain ⟨ha, has⟩ := List.forall_mem_cons.mp ha
      obtain ⟨hb, hbs⟩ := List.forall_mem_cons.mp hb
      rw [List.map_cons, List.map_cons, List.cons.injEq] at h
      rw [eq_of_line_eq ha hb h.1, ih has hbs h.2]

end Instr

/-- The lines of a method with code end with those of the code and an empty one. -/
theorem exists_methodLines_eq {m : Method} (h : m.host = none) (entry : Option Nat) (id : Nat) :
    ∃ above, above.length = m.locals.size + 1 ∧
      methodLines entry m id = above ++ codeLines m.code ++ [""] := by
  refine ⟨(methodLines entry m id).take (m.locals.size + 1), ?_, ?_⟩ <;>
    simp [methodLines, h]

/-- Listings can be read in one way: instructions other than `pushFloat` with one text are equal, a
`pushFloat` shares its text with no other instruction, and methods without `pushFloat` have equal
code if the listing has the same lines for their codes. -/
theorem listing_unambiguous :
    (∀ a b : Instr, a.FloatFree → b.FloatFree → a.text = b.text → a = b) ∧
    (∀ (a : Instr) (bits : UInt64), a.text = (Instr.pushFloat bits).text →
      ∃ bits', a = .pushFloat bits') ∧
    (∀ m m' : Method, (∀ i ∈ m.code, i.FloatFree) → (∀ i ∈ m'.code, i.FloatFree) →
      codeLines m.code = codeLines m'.code → m.code = m'.code) ∧
    ∀ (m : Method) (entry : Option Nat) (id : Nat), m.host = none →
      ∃ above, above.length = m.locals.size + 1 ∧
        methodLines entry m id = above ++ codeLines m.code ++ [""] := by
  refine ⟨fun a b => Instr.eq_of_text_eq, fun a bits h => ?_, fun m m' hm hm' h => ?_,
    fun m entry id h => exists_methodLines_eq h entry id⟩
  · by_contra hne
    exact Instr.FloatFree.text_ne (fun bits' h' => hne ⟨bits', h'⟩) bits h
  · exact Array.toList_inj.mp (Instr.eq_of_map_line_eq (by simpa using hm) (by simpa using hm') h)

/-- A method that repeats a call of the method with the index 1, with 12 arguments. -/
def repeatedCall : Method :=
  { (default : Method) with code := #[.label 0, .call 1 12, .branchIfTrue 0, .ret] }

/-- Another method with the same lines has the same code, and the call could not be one of the
method with the index 11, with 2 arguments. -/
theorem repeatedCall_unambiguous :
    (∀ i ∈ repeatedCall.code, i.FloatFree) ∧
    codeLines repeatedCall.code = codeLines { repeatedCall with name := "again" }.code ∧
    repeatedCall.code = { repeatedCall with name := "again" }.code ∧
    (Instr.call 1 12).text ≠ (Instr.call 11 2).text := by
  have hfree : ∀ i ∈ repeatedCall.code, i.FloatFree := by
    simp [repeatedCall, Instr.FloatFree]
  refine ⟨hfree, rfl, listing_unambiguous.2.2.1 _ _ hfree hfree rfl, fun h => ?_⟩
  have hcall (method argc : Nat) : (Instr.call method argc).FloatFree := by
    simp [Instr.FloatFree]
  exact absurd (listing_unambiguous.1 _ _ (hcall 1 12) (hcall 11 2) h) (by decide)

end Quill.Code
