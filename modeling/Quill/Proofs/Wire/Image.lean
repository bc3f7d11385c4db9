import Quill.Proofs.Compiled
import Quill.Proofs.Wire.Exact
import Quill.Wire.File

/-! # Files are read as they were written

The format of images is exact on the images that fit it: those of which every number is within the
width of its field, and every table and text has fewer than `2 ^ 64` parts.  `decode_exact` says
what follows for files: a file is accepted just if it starts with the file of an image, and then it
is read as this image. -/

namespace Quill.Wire

open Code Format

/-! ### Values within the widths of their fields -/

/-- The rank of an array type is one byte. -/
def TyFits : Ty → Prop
  | .array _ rank => rank < UInt8.size
  | .integer | .float | .string | .boolean | .void | .undefined => True

/-- Slots and counts of arguments are two bytes, numbers of labels and table entries four. -/
def InstrFits : Instr → Prop
  | .label n | .pushStr n | .branchCmp _ _ n | .branchIfTrue n | .jump n | .callHost n =>
    n < UInt32.size
  | .loadArg slot | .storeArg slot | .loadLocal slot | .storeLocal slot => slot < UInt16.size
  | .newArray _ rank | .arrayGet rank | .arraySet rank => rank < UInt8.size
  | .call method argc => method < UInt32.size ∧ argc < UInt16.size
  | .nop | .pushInt _ | .pushFloat _ | .arith _ _ | .intToFloat | .concat | .strEq | .loadElem
  | .storeElem | .intrinsic _ | .pop | .ret => True

/-- The length of a text in bytes is a number of eight bytes. -/
def TextFits (s : String) : Prop := (Text.toBytes s).length < UInt64.size

/-- So is the length of a table, and its entries fit. -/
def TableFits {α : Type} (fits : α → Prop) (as : Array α) : Prop :=
  as.size < UInt64.size ∧ ∀ a ∈ as, fits a

def TysFit (ts : List Ty) : Prop := ts.length < UInt64.size ∧ ∀ t ∈ ts, TyFits t

def LocalFits (l : Local) : Prop := TextFits l.name ∧ TyFits l.ty

def MethodFits (m : Method) : Prop :=
  TextFits m.name ∧ TysFit m.params ∧ TyFits m.returnType ∧ TableFits LocalFits m.locals ∧
    TableFits InstrFits m.code ∧ TableFits (· < UInt64.size) m.labels ∧
    ∀ h ∈ m.host, h < UInt32.size

def RoutineFits (r : HostRoutine) : Prop :=
  TextFits r.package ∧ TextFits r.name ∧ TysFit r.params ∧ TyFits r.returnType

def ImageFits (p : Image) : Prop :=
  TableFits MethodFits p.methods ∧ TableFits TextFits p.strings ∧
    TableFits RoutineFits p.hostRoutines ∧ ∀ id ∈ p.entry, id < UInt32.size

instance : DecidablePred TyFits
  | .array _ rank => inferInstanceAs (Decidable (rank < UInt8.size))
  | .integer | .float | .string | .boolean | .void | .undefined => .isTrue trivial

instance : DecidablePred InstrFits
  | .label n | .pushStr n | .branchCmp _ _ n | .branchIfTrue n | .jump n | .callHost n =>
    inferInstanceAs (Decidable (n < UInt32.size))
  | .loadArg slot | .storeArg slot | .loadLocal slot | .storeLocal slot =>
    inferInstanceAs (Decidable (slot < UInt16.size))
  | .newArray _ rank | .arrayGet rank | .arraySet rank =>
    inferInstanceAs (Decidable (rank < UInt8.size))
  | .call method argc => inferInstanceAs (Decidable (method < UInt32.size ∧ argc < UInt16.size))
  | .nop | .pushInt _ | .pushFloat _ | .arith _ _ | .intToFloat | .concat | .strEq | .loadElem
  | .storeElem | .intrinsic _ | .pop | .ret => .isTrue trivial

instance : DecidablePred TextFits := fun s =>
  inferInstanceAs (Decidable ((Text.toBytes s).length < UInt64.size))

instance {α : Type} (fits : α → Prop) [DecidablePred fits] : DecidablePred (TableFits fits) :=
  fun as => inferInstanceAs (Decidable (as.size < UInt64.size ∧ ∀ a ∈ as, fits a))

instance : DecidablePred TysFit := fun ts =>
  inferInstanceAs (Decidable (ts.length < UInt64.size ∧ ∀ t ∈ ts, TyFits t))

instance : DecidablePred LocalFits := fun l =>
  inferInstanceAs (Decidable (TextFits l.name ∧ TyFits l.ty))

instance : DecidablePred MethodFits := fun m =>
  inferInstanceAs (Decidable (TextFits m.name ∧ TysFit m.params ∧ TyFits m.returnType ∧
    TableFits LocalFits m.locals ∧ TableFits InstrFits m.code ∧
    TableFits (· < UInt64.size) m.labels ∧ ∀ h ∈ m.host, h < UInt32.size))

instance : DecidablePred RoutineFits := fun r =>
  inferInstanceAs (Decidable (TextFits r.package ∧ TextFits r.name ∧ TysFit r.params ∧
    TyFits r.returnType))

instance : DecidablePred ImageFits := fun p =>
  inferInstanceAs (Decidable (TableFits MethodFits p.methods ∧ TableFits TextFits p.strings ∧
    TableFits RoutineFits p.hostRoutines ∧ ∀ id ∈ p.entry, id < UInt32.size))

/-! ### Enumerations and types -/

theorem exact_element : element.Exact fun _ => True :=
  exact_choice (fun e => by cases e <;> decide) (by decide) (by decide)

theorem exact_numeric : numeric.Exact fun _ => True :=
  exact_choice (fun n => by cases n <;> decide) (by decide) (by decide)

theorem exact_arithOp : arithOp.Exact fun _ => True :=
  exact_choice (fun op => by cases op <;> decide) (by decide) (by decide)

theorem exact_comparison : comparison.Exact fun _ => True :=
  exact_choice (fun op => by cases op <;> decide) (by decide) (by decide)

theorem exact_intrinsic : intrinsic.Exact fun _ => True :=
  exact_choice (fun i => by cases i <;> decide) (by decide) (by decide)

theorem exact_ty : ty.Exact TyFits := by
  intro bs t rest
  unfold ty
  dsimp only
  rw [readTy, exact_u32.bind_eq_ok]
  constructor
  · rintro ⟨number, bs', ⟨_, rfl⟩, h⟩
    dsimp only at h
    split at h
    case h_7 =>
      obtain ⟨e, bs₁, ⟨_, rfl⟩, h₁⟩ := exact_element.bind_eq_ok.mp h
      obtain ⟨rank, bs₂, ⟨hrank, rfl⟩, h₂⟩ := exact_u8.bind_eq_ok.mp h₁
      obtain ⟨rfl, rfl⟩ := Prod.mk.inj (Except.ok.inj h₂)
      exact ⟨hrank, by simp [writeTy]⟩
    case h_8 => cases h
    all_goals
      obtain ⟨rfl, rfl⟩ := Prod.mk.inj (Except.ok.inj h)
      exact ⟨trivial, rfl⟩
  · rintro ⟨ht, rfl⟩
    cases t with
    | array e rank =>
      refine ⟨6, element.write e ++ (u8.write rank ++ rest), ⟨by decide, by simp [writeTy]⟩, ?_⟩
      refine exact_element.bind_eq_ok.mpr ⟨e, _, ⟨trivial, rfl⟩, ?_⟩
      exact exact_u8.bind_eq_ok.mpr ⟨rank, _, ⟨ht, rfl⟩, rfl⟩
    | integer => exact ⟨0, rest, ⟨by decide, rfl⟩, rfl⟩
    | float => exact ⟨1, rest, ⟨by decide, rfl⟩, rfl⟩
    | string => exact ⟨2, rest, ⟨by decide, rfl⟩, rfl⟩
    | boolean => exact ⟨3, rest, ⟨by decide, rfl⟩, rfl⟩
    | void => exact ⟨4, rest, ⟨by decide, rfl⟩, rfl⟩
    | undefined => exact ⟨5, rest, ⟨by decide, rfl⟩, rfl⟩

/-! ### Instructions -/

theorem readOperand_eq_ok {α : Type} {f : Format α} {ok : α → Prop} (hf : f.Exact ok)
    {make : α → Instr} {bs rest : Bytes} {i : Instr} :
    readOperand f make bs = .ok (i, rest) ↔
      ∃ a, ok a ∧ make a = i ∧ bs = f.write a ++ rest := by
  rw [readOperand, hf.bind_eq_ok]
  constructor
  · rintro ⟨a, rest', ⟨ha, rfl⟩, h⟩
    obtain ⟨rfl, rfl⟩ := Prod.mk.inj (Except.ok.inj h)
    exact ⟨a, ha, rfl, rfl⟩
  · rintro ⟨a, ha, rfl, rfl⟩
    exact ⟨a, rest, ⟨ha, rfl⟩, rfl⟩

theorem readOperands_eq_ok {α β : Type} {f : Format α} {g : Format β} {ok : α → Prop}
    {ok' : β → Prop} (hf : f.Exact ok) (hg : g.Exact ok') {make : α → β → Instr}
    {bs rest : Bytes} {i : Instr} :
    readOperands f g make bs = .ok (i, rest) ↔
      ∃ a b, (ok a ∧ ok' b) ∧ make a b = i ∧ bs = f.write a ++ (g.write b ++ rest) := by
  rw [readOperands, hf.bind_eq_ok]
  constructor
  · rintro ⟨a, rest', ⟨ha, rfl⟩, h⟩
    obtain ⟨b, rest'', ⟨hb, rfl⟩, h'⟩ := hg.bind_eq_ok.mp h
    obtain ⟨rfl, rfl⟩ := Prod.mk.inj (Except.ok.inj h')
    exact ⟨a, b, ⟨ha, hb⟩, rfl, rfl⟩
  · rintro ⟨a, b, ⟨ha, hb⟩, rfl, rfl⟩
    exact ⟨a, _, ⟨ha, rfl⟩, hg.bind_eq_ok.mpr ⟨b, rest, ⟨hb, rfl⟩, rfl⟩⟩

/-- An instruction of one operand that was read is written with its number in front. -/
theorem fits_of_readOperand {α : Type} {f : Format α} {ok : α → Prop} (hf : f.Exact ok)
    {make : α → Instr} {bs rest : Bytes} {i : Instr} {number : Nat}
    (h : readOperand f make bs = .ok (i, rest)) (hok : ∀ a, ok a → InstrFits (make a))
    (hwrite : ∀ a, writeInstr (make a) = u32.write number ++ f.write a) :
    InstrFits i ∧ u32.write number ++ bs = writeInstr i ++ rest := by
  obtain ⟨a, ha, rfl, rfl⟩ := (readOperand_eq_ok hf).mp h
  exact ⟨hok a ha, by rw [hwrite, List.append_assoc]⟩

theorem fits_of_readOperands {α β : Type} {f : Format α} {g : Format β} {ok : α → Prop}
    {ok' : β → Prop} (hf : f.Exact ok) (hg : g.Exact ok') {make : α → β → Instr}
    {bs rest : Bytes} {i : Instr} {number : Nat} (h : readOperands f g make bs = .ok (i, rest))
    (hok : ∀ a b, ok a → ok' b → InstrFits (make a b))
    (hwrite : ∀ a b, writeInstr (make a b) = u32.write number ++ f.write a ++ g.write b) :
    InstrFits i ∧ u32.write number ++ bs = writeInstr i ++ rest := by
  obtain ⟨a, b, ⟨ha, hb⟩, rfl, rfl⟩ := (readOperands_eq_ok hf hg).mp h
  exact ⟨hok a b ha hb, by rw [hwrite, List.append_assoc, List.append_assoc]⟩

theorem readInstr_sound {bs rest : Bytes} {i : Instr} (h : readInstr bs = .ok (i, rest)) :
    InstrFits i ∧ bs = writeInstr i ++ rest := by
  obtain ⟨number, bs', ⟨_, rfl⟩, h'⟩ := exact_u32.bind_eq_ok.mp h
  dsimp only at h'
  split at h'
  case h_2 | h_5 | h_15 | h_16 | h_23 =>
    exact fits_of_readOperand exact_u32 h' (fun _ ha => ha) fun _ => rfl
  case h_3 => exact fits_of_readOperand exact_int h' (fun _ _ => trivial) fun _ => rfl
  case h_4 => exact fits_of_readOperand exact_word h' (fun _ _ => trivial) fun _ => rfl
  case h_6 | h_7 | h_8 | h_9 =>
    exact fits_of_readOperand exact_u16 h' (fun _ ha => ha) fun _ => rfl
  case h_10 =>
    exact fits_of_readOperands exact_arithOp exact_numeric h' (fun _ _ _ _ => trivial)
      fun _ _ => rfl
  case h_14 =>
    obtain ⟨cond, bs₁, ⟨_, rfl⟩, h₁⟩ := exact_comparison.bind_eq_ok.mp h'
    obtain ⟨t, bs₂, ⟨_, rfl⟩, h₂⟩ := exact_numeric.bind_eq_ok.mp h₁
    obtain ⟨target, bs₃, ⟨htarget, rfl⟩, h₃⟩ := exact_u32.bind_eq_ok.mp h₂
    obtain ⟨rfl, rfl⟩ := Prod.mk.inj (Except.ok.inj h₃)
    exact ⟨htarget, by simp [writeInstr]⟩
  case h_17 =>
    exact fits_of_readOperands exact_element exact_u8 h' (fun _ _ _ hb => hb) fun _ _ => rfl
  case h_20 | h_21 => exact fits_of_readOperand exact_u8 h' (fun _ ha => ha) fun _ => rfl
  case h_22 =>
    exact fits_of_readOperands exact_u32 exact_u16 h' (fun _ _ ha hb => ⟨ha, hb⟩) fun _ _ => rfl
  case h_24 => exact fits_of_readOperand exact_intrinsic h' (fun _ _ => trivial) fun _ => rfl
  case h_27 => cases h'
  all_goals
    obtain ⟨rfl, rfl⟩ := Prod.mk.inj (Except.ok.inj h')
    exact ⟨trivial, rfl⟩

theorem readInstr_operand {α : Type} {f : Format α} {ok : α → Prop} (hf : f.Exact ok)
    {make : α → Instr} {a : α} {number : Nat} (ha : ok a) (rest : Bytes)
    (hread : ∀ bs, readInstr (u32.write number ++ bs) = readOperand f make bs) :
    readInstr (u32.write number ++ f.write a ++ rest) = .ok (make a, rest) := by
  rw [List.append_assoc, hread]
  exact (readOperand_eq_ok hf).mpr ⟨a, ha, rfl, rfl⟩

theorem readInstr_operands {α β : Type} {f : Format α} {g : Format β} {ok : α → Prop}
    {ok' : β → Prop} (hf : f.Exact ok) (hg : g.Exact ok') {make : α → β → Instr} {a : α} {b : β}
    {number : Nat} (hab : ok a ∧ ok' b) (rest : Bytes)
    (hread : ∀ bs, readInstr (u32.write number ++ bs) = readOperands f g make bs) :
    readInstr (u32.write number ++ f.write a ++ g.write b ++ rest) = .ok (make a b, rest) := by
  rw [List.append_assoc, List.append_assoc, hread]
  exact (readOperands_eq_ok hf hg).mpr ⟨a, b, hab, rfl, rfl⟩

theorem readInstr_writeInstr {i : Instr} (hi : InstrFits i) (rest : Bytes) :
    readInstr (writeInstr i ++ rest) = .ok (i, rest) := by
  cases i with
  | nop | intToFloat | concat | strEq | loadElem | storeElem | pop | ret => rfl
  | label | pushStr | branchIfTrue | jump | callHost =>
    exact readInstr_operand exact_u32 hi rest fun _ => rfl
  | loadArg | storeArg | loadLocal | storeLocal =>
    exact readInstr_operand exact_u16 hi rest fun _ => rfl
  | arrayGet | arraySet => exact readInstr_operand exact_u8 hi rest fun _ => rfl
  | pushInt => exact readInstr_operand exact_int trivial rest fun _ => rfl
  | pushFloat => exact readInstr_operand exact_word trivial rest fun _ => rfl
  | intrinsic => exact readInstr_operand exact_intrinsic trivial rest fun _ => rfl
  | arith =>
    exact readInstr_operands exact_arithOp exact_numeric ⟨trivial, trivial⟩ rest fun _ => rfl
  | newArray => exact readInstr_operands exact_element exact_u8 ⟨trivial, hi⟩ rest fun _ => rfl
  | call => exact readInstr_operands exact_u32 exact_u16 hi rest fun _ => rfl
  | branchCmp cond t target =>
    rw [writeInstr, List.append_assoc, List.append_assoc, List.append_assoc]
    refine exact_u32.bind_eq_ok.mpr ⟨13, _, ⟨by decide, rfl⟩, ?_⟩
    refine exact_comparison.bind_eq_ok.mpr ⟨cond, _, ⟨trivial, rfl⟩, ?_⟩
    refine exact_numeric.bind_eq_ok.mpr ⟨t, _, ⟨trivial, rfl⟩, ?_⟩
    exact exact_u32.bind_eq_ok.mpr ⟨target, rest, ⟨hi, rfl⟩, rfl⟩

theorem exact_instr : instr.Exact InstrFits := by
  intro bs i rest
  constructor
  · exact readInstr_sound
  · rintro ⟨hi, rfl⟩
    exact readInstr_writeInstr hi rest

/-! ### Records -/

theorem exact_localVar : localVar.Exact LocalFits := by
  intro bs l rest
  constructor
  · intro h
    obtain ⟨_, bs₁, ⟨hname, rfl⟩, h₁⟩ := exact_text.bind_eq_ok.mp h
    obtain ⟨_, bs₂, ⟨ht, rfl⟩, h₂⟩ := exact_ty.bind_eq_ok.mp h₁
    obtain ⟨rfl, rfl⟩ := Prod.mk.inj (Except.ok.inj h₂)
    exact ⟨⟨hname, ht⟩, by simp [localVar]⟩
  · rintro ⟨⟨hname, ht⟩, rfl⟩
    simp only [localVar, List.append_assoc]
    refine exact_text.bind_eq_ok.mpr ⟨_, _, ⟨hname, rfl⟩, ?_⟩
    exact exact_ty.bind_eq_ok.mpr ⟨_, rest, ⟨ht, rfl⟩, rfl⟩

theorem exact_method : method.Exact MethodFits := by
  intro bs m rest
  constructor
  · intro h
    obtain ⟨_, bs₁, ⟨hname, rfl⟩, h₁⟩ := exact_text.bind_eq_ok.mp h
    obtain ⟨_, bs₂, ⟨hparams, rfl⟩, h₂⟩ := exact_ty.sequence.bind_eq_ok.mp h₁
    obtain ⟨_, bs₃, ⟨hreturn, rfl⟩, h₃⟩ := exact_ty.bind_eq_ok.mp h₂
    obtain ⟨_, bs₄, ⟨hlocals, rfl⟩, h₄⟩ := exact_localVar.array.bind_eq_ok.mp h₃
    obtain ⟨_, bs₅, ⟨hcode, rfl⟩, h₅⟩ := exact_instr.array.bind_eq_ok.mp h₄
    obtain ⟨_, bs₆, ⟨hlabels, rfl⟩, h₆⟩ := exact_u64.array.bind_eq_ok.mp h₅
    obtain ⟨_, bs₇, ⟨hhost, rfl⟩, h₇⟩ := exact_u32.optional.bind_eq_ok.mp h₆
    obtain ⟨rfl, rfl⟩ := Prod.mk.inj (Except.ok.inj h₇)
    exact ⟨⟨hname, hparams, hreturn, hlocals, hcode, hlabels, hhost⟩, by simp [method]⟩
  · rintro ⟨⟨hname, hparams, hreturn, hlocals, hcode, hlabels, hhost⟩, rfl⟩
    simp only [method, List.append_assoc]
    refine exact_text.bind_eq_ok.mpr ⟨_, _, ⟨hname, rfl⟩, ?_⟩
    refine exact_ty.sequence.bind_eq_ok.mpr ⟨_, _, ⟨hparams, rfl⟩, ?_⟩
    refine exact_ty.bind_eq_ok.mpr ⟨_, _, ⟨hreturn, rfl⟩, ?_⟩
    refine exact_localVar.array.bind_eq_ok.mpr ⟨_, _, ⟨hlocals, rfl⟩, ?_⟩
    refine exact_instr.array.bind_eq_ok.mpr ⟨_, _, ⟨hcode, rfl⟩, ?_⟩
    refine exact_u64.array.bind_eq_ok.mpr ⟨_, _, ⟨hlabels, rfl⟩, ?_⟩
    exact exact_u32.optional.bind_eq_ok.mpr ⟨_, rest, ⟨hhost, rfl⟩, rfl⟩

theorem exact_hostRoutine : hostRoutine.Exact RoutineFits := by
  intro bs r rest
  constructor
  · intro h
    obtain ⟨_, bs₁, ⟨hpackage, rfl⟩, h₁⟩ := exact_text.bind_eq_ok.mp h
    obtain ⟨_, bs₂, ⟨hname, rfl⟩, h₂⟩ := exact_text.bind_eq_ok.mp h₁
    obtain ⟨_, bs₃, ⟨hparams, rfl⟩, h₃⟩ := exact_ty.sequence.bind_eq_ok.mp h₂
    obtain ⟨_, bs₄, ⟨hreturn, rfl⟩, h₄⟩ := exact_ty.bind_eq_ok.mp h₃
    obtain ⟨rfl, rfl⟩ := Prod.mk.inj (Except.ok.inj h₄)
    exact ⟨⟨hpackage, hname, hparams, hreturn⟩, by simp [hostRoutine]⟩
  · rintro ⟨⟨hpackage, hname, hparams, hreturn⟩, rfl⟩
    simp only [hostRoutine, List.append_assoc]
    refine exact_text.bind_eq_ok.mpr ⟨_, _, ⟨hpackage, rfl⟩, ?_⟩
    refine exact_text.bind_eq_ok.mpr ⟨_, _, ⟨hname, rfl⟩, ?_⟩
    refine exact_ty.sequence.bind_eq_ok.mpr ⟨_, _, ⟨hparams, rfl⟩, ?_⟩
    exact exact_ty.bind_eq_ok.mpr ⟨_, rest, ⟨hreturn, rfl⟩, rfl⟩

theorem exact_image : image.Exact ImageFits := by
  intro bs p rest
  constructor
  · intro h
    obtain ⟨_, bs₁, ⟨hmethods, rfl⟩, h₁⟩ := exact_method.array.bind_eq_ok.mp h
    obtain ⟨_, bs₂, ⟨hstrings, rfl⟩, h₂⟩ := exact_text.array.bind_eq_ok.mp h₁
    obtain ⟨_, bs₃, ⟨hroutines, rfl⟩, h₃⟩ := exact_hostRoutine.array.bind_eq_ok.mp h₂
    obtain ⟨_, bs₄, ⟨hentry, rfl⟩, h₄⟩ := exact_u32.optional.bind_eq_ok.mp h₃
    obtain ⟨rfl, rfl⟩ := Prod.mk.inj (Except.ok.inj h₄)
    exact ⟨⟨hmethods, hstrings, hroutines, hentry⟩, by simp [image]⟩
  · rintro ⟨⟨hmethods, hstrings, hroutines, hentry⟩, rfl⟩
    simp only [image, List.append_assoc]
    refine exact_method.array.bind_eq_ok.mpr ⟨_, _, ⟨hmethods, rfl⟩, ?_⟩
    refine exact_text.array.bind_eq_ok.mpr ⟨_, _, ⟨hstrings, rfl⟩, ?_⟩
    refine exact_hostRoutine.array.bind_eq_ok.mpr ⟨_, _, ⟨hroutines, rfl⟩, ?_⟩
    exact exact_u32.optional.bind_eq_ok.mpr ⟨_, rest, ⟨hentry, rfl⟩, rfl⟩

/-! ### Files -/

/-- A file is accepted just if it starts with the bytes of its image. -/
theorem decode_eq_ok {bs : Bytes} {p : Image} :
    decode bs = .ok p ↔ ImageFits p ∧ ∃ rest, bs = encode p ++ rest := by
  constructor
  · intro h
    unfold decode at h
    split at h
    · cases h
    · next front bs₁ hfront =>
      obtain ⟨_, rfl⟩ := (exact_readBytes _).of_read hfront
      split at h
      · cases h
      · next hmagic =>
        split at h
        · cases h
        · next found bs₂ hfound =>
          obtain ⟨_, rfl⟩ := exact_u16.of_read hfound
          split at h
          · cases h
          · next hversion =>
            split at h
            · cases h
            · next p' rest hp =>
              obtain ⟨hfits, rfl⟩ := exact_image.of_read hp
              obtain rfl := Except.ok.inj h
              obtain rfl := not_not.mp hmagic
              obtain rfl := not_not.mp hversion
              exact ⟨hfits, rest, by simp [encode]⟩
  · rintro ⟨hfits, rest, rfl⟩
    have hfront := (exact_readBytes magic.length).read_write rfl
      (u16.write version ++ (image.write p ++ rest))
    have hfound := exact_u16.read_write (a := version) (by decide) (image.write p ++ rest)
    have himage := exact_image.read_write hfits rest
    simp only [encode, List.append_assoc]
    unfold decode
    dsimp only [id] at hfront
    rw [hfront]
    simp only [ne_eq, not_true_eq_false, if_false]
    rw [hfound]
    simp only [not_true_eq_false, if_false]
    rw [himage]

/-- Writing an image and reading files fit together exactly.  Reading a file gives an image just if
the file starts with what is written for the image, whatever follows; so what is written is read
back, and a file that is accepted is the writing of its image.  What ends before the writing of an
image is complete is refused. -/
theorem decode_exact (bs : Bytes) (p : Image) :
    (decode bs = .ok p ↔ ImageFits p ∧ ∃ rest, bs = encode p ++ rest) ∧
      (ImageFits p → bs <+: encode p → bs ≠ encode p → ∃ fault, decode bs = .error fault) := by
  refine ⟨decode_eq_ok, ?_⟩
  rintro hfits ⟨tail, htail⟩ hne
  cases hq : decode bs with
  | error fault => exact ⟨fault, rfl⟩
  | ok q =>
    obtain ⟨hqfits, rest, rfl⟩ := decode_eq_ok.mp hq
    have hp : decode (encode p) = .ok p := decode_eq_ok.mpr ⟨hfits, [], by simp⟩
    have hp' : decode (encode p) = .ok q :=
      decode_eq_ok.mpr ⟨hqfits, rest ++ tail, by rw [← htail, List.append_assoc]⟩
    obtain rfl := Except.ok.inj (hp.symm.trans hp')
    rw [List.append_assoc, List.append_right_eq_self, List.append_eq_nil_iff] at htail
    exact absurd (by rw [htail.1, List.append_nil]) hne

theorem nearImage_decode_exact :
    ImageFits nearImage ∧ decode (encode nearImage ++ [7]) = .ok nearImage ∧
      ∃ fault, decode (encode nearImage).dropLast = .error fault := by
  have hfits : ImageFits nearImage := by decide +kernel
  refine ⟨hfits, (decode_exact _ _).1.mpr ⟨hfits, [7], rfl⟩, ?_⟩
  refine (decode_exact _ _).2 hfits (List.dropLast_prefix _) fun h => ?_
  have hlen := congrArg List.length h
  rw [List.length_dropLast] at hlen
  have hpos : 0 < (encode nearImage).length := by simp [encode, magic]
  omega

end Quill.Wire
