import Mathlib.Data.List.Basic
import Quill.Proofs.Text.Trim
import Quill.Ty.Name

/-! # Which texts name types

`Ty.Spells` is the grammar of type names: a name of a type without brackets, or the name of an
element type, a gap of blanks, and brackets around commas and blanks.  Main statement: with blanks
around it, a text names a type just if the grammar says so, and any other text is given back
unchanged. -/

namespace Quill.Ty

open Text (isBlank Blank Padded Tight trim)

/-- The names of the types without brackets. -/
inductive Primitive : String → Ty → Prop
  | integer : Primitive "Integer" .integer
  | int : Primitive "int" .integer
  | float : Primitive "Float" .float
  | lowerFloat : Primitive "float" .float
  | string : Primitive "String" .string
  | lowerString : Primitive "string" .string
  | boolean : Primitive "Boolean" .boolean
  | bool : Primitive "bool" .boolean
  | void : Primitive "Void" .void
  | lowerVoid : Primitive "void" .void

/-- The spellings of a type, without blanks around them. -/
inductive Spells : List Char → Ty → Prop
  | primitive {name : String} {t : Ty} (h : Primitive name t) : Spells name.toList t
  | array {name : String} {e : Element} {gap inner : List Char}
      (h : Primitive name e.toTy) (hgap : Blank gap)
      (hinner : ∀ c ∈ inner, c = ',' ∨ isBlank c = true) (hrank : inner.count ',' ≤ 254) :
      Spells (name.toList ++ gap ++ '[' :: (inner ++ [']'])) (.array e (inner.count ',' + 1))

/-! ### Names without brackets -/

theorem mem_primitiveNames_iff {name : String} {t : Ty} :
    (name, t) ∈ primitiveNames ↔ Primitive name t := by
  constructor
  · intro h
    simp only [primitiveNames, List.mem_cons, Prod.mk.injEq, List.not_mem_nil, or_false] at h
    rcases h with ⟨rfl, rfl⟩ | ⟨rfl, rfl⟩ | ⟨rfl, rfl⟩ | ⟨rfl, rfl⟩ | ⟨rfl, rfl⟩ | ⟨rfl, rfl⟩ |
      ⟨rfl, rfl⟩ | ⟨rfl, rfl⟩ | ⟨rfl, rfl⟩ | ⟨rfl, rfl⟩
    all_goals constructor
  · intro h
    cases h <;> decide

theorem lookup_primitiveNames : ∀ p ∈ primitiveNames, primitiveNames.lookup p.1 = some p.2 := by
  decide

theorem ofPrimitive?_eq_some_iff {cs : List Char} {t : Ty} :
    ofPrimitive? cs = some t ↔ ∃ name, Primitive name t ∧ name.toList = cs := by
  unfold ofPrimitive?
  simp only [← mem_primitiveNames_iff]
  constructor
  · intro hlookup
    obtain ⟨before, after, heq, -⟩ := List.lookup_eq_some_iff.mp hlookup
    refine ⟨String.ofList cs, ?_, String.toList_ofList⟩
    rw [heq]
    simp
  · rintro ⟨name, hname, rfl⟩
    rw [String.ofList_toList]
    exact lookup_primitiveNames (name, t) hname

namespace Primitive

variable {name : String} {t : Ty}

theorem ne_nil (h : Primitive name t) : name.toList ≠ [] := by
  cases h <;> decide

theorem chars (h : Primitive name t) : ∀ c ∈ name.toList, isBlank c = false ∧ c ≠ '[' := by
  have hall : name.toList.all (fun c => !isBlank c && c != '[') = true := by
    cases h <;> decide
  simpa using hall

theorem not_mem (h : Primitive name t) : '[' ∉ name.toList :=
  fun hmem => (h.chars _ hmem).2 rfl

theorem tight (h : Primitive name t) : Tight name.toList :=
  Text.tight_of_forall fun c hc => (h.chars c hc).1

theorem self (h : Primitive name t) : Primitive t.name t := by
  cases h <;> constructor

theorem ne_undefined (h : Primitive name t) : t ≠ .undefined := by
  cases h <;> exact Ty.noConfusion

end Primitive

theorem primitive_name (e : Element) : Primitive e.name e.toTy := by
  cases e <;> constructor

/-! ### Brackets -/

theorem rankOf?_eq_some_iff {suffix : List Char} {rank : Nat} :
    rankOf? suffix = some rank ↔ ∃ inner, suffix = inner ++ [']'] ∧
      (∀ c ∈ inner, c = ',' ∨ isBlank c = true) ∧ inner.count ',' ≤ 254 ∧
        rank = inner.count ',' + 1 := by
  unfold rankOf?
  split
  · next hlast =>
    obtain ⟨inner, rfl⟩ := List.getLast?_eq_some_iff.mp hlast
    have hall : (inner.all fun c => c == ',' || isBlank c) = true ↔
        ∀ c ∈ inner, c = ',' ∨ isBlank c = true := by
      simp
    have hrank : inner.count ',' + 1 ≤ maxRank ↔ inner.count ',' ≤ 254 := Nat.succ_le_succ_iff
    simp only [List.dropLast_concat, Bool.and_eq_true, decide_eq_true_eq, hall, hrank,
      List.append_cancel_right_eq, Option.ite_none_right_eq_some, Option.some.injEq]
    constructor
    · rintro ⟨⟨hinner, hcount⟩, rfl⟩
      exact ⟨inner, rfl, hinner, hcount, rfl⟩
    · rintro ⟨_, rfl, hinner, hcount, rfl⟩
      exact ⟨⟨hinner, hcount⟩, rfl⟩
  · next hlast =>
    constructor
    · intro hnone
      cases hnone
    · rintro ⟨inner, rfl, -⟩
      exact absurd List.getLast?_concat (hlast ·)

theorem bne_of_not_mem {cs : List Char} (h : '[' ∉ cs) : ∀ c ∈ cs, (c != '[') = true := by
  intro c hc
  rw [bne_iff_ne]
  rintro rfl
  exact h hc

theorem ofChars?_of_not_mem {cs : List Char} (h : '[' ∉ trim cs) :
    ofChars? cs = ofPrimitive? (trim cs) := by
  have hno := bne_of_not_mem h
  unfold ofChars?
  dsimp only
  rw [List.dropWhile_eq_nil_iff.mpr hno, List.takeWhile_eq_self_iff.mpr hno]

/-- The first opening bracket divides the text into the name and the rank. -/
theorem ofChars?_eq_some_iff_of_append {cs base suffix : List Char} {t : Ty}
    (h : trim cs = base ++ '[' :: suffix) (hbase : '[' ∉ base) :
    ofChars? cs = some t ↔ ∃ rank e, rankOf? suffix = some rank ∧
      ofPrimitive? (trim base) = some e.toTy ∧ t = .array e rank := by
  have hno := bne_of_not_mem hbase
  have htake : (trim cs).takeWhile (· != '[') = base := by
    rw [h, List.takeWhile_append_of_pos hno]
    simp
  have hdrop : (trim cs).dropWhile (· != '[') = '[' :: suffix := by
    rw [h, List.dropWhile_append_of_pos hno]
    simp
  unfold ofChars?
  dsimp only
  rw [htake, hdrop]
  simp only [Option.bind_eq_bind, Option.bind_eq_some_iff, Option.pure_def, Option.some.injEq,
    Element.ofTy?_eq_some_iff]
  constructor
  · rintro ⟨rank, hrank, e, ⟨_, hname, rfl⟩, rfl⟩
    exact ⟨rank, e, hrank, hname, rfl⟩
  · rintro ⟨rank, e, hrank, hname, rfl⟩
    exact ⟨rank, hrank, e, ⟨_, hname, rfl⟩, rfl⟩

/-! ### The grammar -/

theorem Spells.tight {core : List Char} {t : Ty} (h : Spells core t) : Tight core := by
  cases h with
  | primitive hname => exact hname.tight
  | @array name e gap inner hname hgap hinner hrank =>
    refine ⟨fun c hc => hname.tight.head c ?_, fun c hc => ?_⟩
    · rw [List.append_assoc, List.head?_append_of_ne_nil _ hname.ne_nil] at hc
      exact hc
    · rw [List.append_cons, ← List.append_assoc, List.getLast?_concat] at hc
      cases hc
      decide

/-- The characters of a type name, trimmed, are spelled by the grammar. -/
theorem ofChars?_eq_some_iff {cs : List Char} {t : Ty} :
    ofChars? cs = some t ↔ Spells (trim cs) t := by
  constructor
  · intro h
    by_cases hbracket : '[' ∈ trim cs
    · obtain ⟨base, suffix, hcs, hbase⟩ := List.eq_append_cons_of_mem hbracket
      obtain ⟨rank, e, hrank, hname, rfl⟩ := (ofChars?_eq_some_iff_of_append hcs hbase).mp h
      obtain ⟨inner, rfl, hinner, hcount, rfl⟩ := rankOf?_eq_some_iff.mp hrank
      obtain ⟨name, hmem, htrim⟩ := ofPrimitive?_eq_some_iff.mp hname
      obtain ⟨⟨before, gap, hbefore, hgap, rfl⟩, -⟩ := Text.trim_eq_iff.mp htrim.symm
      have hnil : before = [] := by
        cases before with
        | nil => rfl
        | cons c before =>
          have hhead := (Text.tight_trim cs).head c (by rw [hcs]; rfl)
          rw [hbefore c List.mem_cons_self] at hhead
          cases hhead
      rw [hcs, hnil, List.nil_append]
      exact .array hmem hgap hinner hcount
    · rw [ofChars?_of_not_mem hbracket] at h
      obtain ⟨name, hmem, heq⟩ := ofPrimitive?_eq_some_iff.mp h
      exact heq ▸ .primitive hmem
  · intro h
    generalize hcs : trim cs = core at h
    cases h with
    | primitive hname =>
      have hno : '[' ∉ trim cs := by
        rw [hcs]
        exact hname.not_mem
      rw [ofChars?_of_not_mem hno, hcs]
      exact ofPrimitive?_eq_some_iff.mpr ⟨_, hname, rfl⟩
    | @array name e gap inner hname hgap hinner hrank =>
      have hno : '[' ∉ name.toList ++ gap := by
        rw [List.mem_append]
        rintro (hmem | hmem)
        · exact hname.not_mem hmem
        · exact absurd (hgap _ hmem) (by decide)
      have htrim : trim (name.toList ++ gap) = name.toList :=
        Text.trim_of_padded ⟨[], gap, Text.blank_nil, hgap, rfl⟩ hname.tight
      refine (ofChars?_eq_some_iff_of_append hcs hno).mpr ⟨_, e, ?_, ?_, rfl⟩
      · exact rankOf?_eq_some_iff.mpr ⟨inner, rfl, hinner, hrank, rfl⟩
      · rw [htrim]
        exact ofPrimitive?_eq_some_iff.mpr ⟨name, hname, rfl⟩

theorem ofName_eq_ok_iff {s : String} {t : Ty} :
    ofName s = .ok t ↔ ∃ core, Padded s.toList core ∧ Spells core t := by
  rw [Text.padded_iff fun _ => Spells.tight, ← ofChars?_eq_some_iff]
  unfold ofName
  cases ofChars? s.toList with
  | none => simp
  | some t' => simp

/-! ### Reading what is written -/

theorem Spells.name {core : List Char} {t : Ty} (h : Spells core t) : Spells t.name.toList t := by
  cases h with
  | primitive hname => exact .primitive hname.self
  | @array _ e _ inner _ _ _ hrank =>
    have hcount : (List.replicate (inner.count ',') ',').count ',' = inner.count ',' :=
      List.count_replicate_self
    have harray : Spells
        (e.name.toList ++ [] ++ '[' :: (List.replicate (inner.count ',') ',' ++ [']']))
        (.array e ((List.replicate (inner.count ',') ',').count ',' + 1)) :=
      .array (primitive_name e) Text.blank_nil
        (fun c hc => .inl (List.eq_of_mem_replicate hc)) (hcount.trans_le hrank)
    rw [hcount] at harray
    simpa [Ty.name] using harray

theorem Spells.ne_undefined {core : List Char} {t : Ty} (h : Spells core t) : t ≠ .undefined := by
  cases h with
  | primitive hname => exact hname.ne_undefined
  | array => exact Ty.noConfusion

/-- **Type names are read exactly by their grammar.**  A text names a type just if it is a spelling
of the type with blanks around it, and a text that names none is given back as it was.  So the
text of each type that can be named names that type, and no text names `Undefined`. -/
theorem ofName_exact (s : String) :
    (∀ t, ofName s = .ok t ↔ ∃ core, Padded s.toList core ∧ Spells core t) ∧
    ((¬ ∃ t core, Padded s.toList core ∧ Spells core t) ↔ ofName s = .error ⟨s⟩) ∧
    ∀ t, ofName s = .ok t → ofName t.name = .ok t ∧ t ≠ .undefined := by
  refine ⟨fun _ => ofName_eq_ok_iff, ?_, fun t ht => ?_⟩
  · simp only [← ofName_eq_ok_iff]
    unfold ofName
    cases ofChars? s.toList <;> simp
  · obtain ⟨core, -, hcore⟩ := ofName_eq_ok_iff.mp ht
    exact ⟨ofName_eq_ok_iff.mpr ⟨_, Text.padded_self _, hcore.name⟩, hcore.ne_undefined⟩

/-- Blanks may stand around the name, before the bracket and between the commas. -/
theorem spacedName_exact :
    ofName " int [ , ] " = .ok (.array .integer 2) ∧
      ofName (Ty.array .integer 2).name = .ok (.array .integer 2) := by
  have hcore : Spells ("int".toList ++ [' '] ++ '[' :: ([' ', ',', ' '] ++ [']']))
      (.array .integer ([' ', ',', ' '].count ',' + 1)) :=
    .array .int (by decide) (by simp [isBlank]) (by decide)
  have hspaced : ofName " int [ , ] " = .ok (.array .integer 2) :=
    ((ofName_exact _).1 _).mpr ⟨_, ⟨[' '], [' '], by decide, by decide, by decide⟩, hcore⟩
  exact ⟨hspaced, ((ofName_exact _).2.2 _ hspaced).1⟩

end Quill.Ty
