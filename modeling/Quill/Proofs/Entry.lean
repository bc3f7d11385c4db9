import Mathlib.Data.List.Nodup
import Quill.Proofs.Compiled
import Quill.Proofs.Typing.Stages
import Quill.Session

/-! # The entry of a program

The entry rule stands twice: checking asks the table for a function `main` without arguments, and
lowering asks the declared methods for one that has code.  For a program that is checked without a
report the two agree exactly when its `main` is not external (`entry_iff_not_external`): only then
does the image have an entry, and only an image without entry makes `emitProgram` report that the
entry is missing. -/

namespace Quill

open Code Lowering Typing
open Report (Log Finding)

/-! ### Counting reports -/

theorem Report.Log.count_eq (l : Log) (code : Report.Code) :
    l.count code = l.wording.countP (·.code = code) + l.meaning.countP (·.code = code) := by
  unfold Log.count Log.toArray
  rw [← Array.countP_eq_size_filter, Array.countP_append]

theorem Report.Log.count_add (l : Log) (r : Report) (code : Report.Code) :
    (l.add r).count code = l.count code + if r.code = code then 1 else 0 := by
  rw [count_eq, count_eq]
  unfold Log.add
  split
  · simp only [Array.countP_push, decide_eq_true_eq]
    omega
  · simp only [Array.countP_push, decide_eq_true_eq]
    omega

/-- Storing an image reports a missing entry exactly when the image has none. -/
theorem count_missingEntry_emitProgram {ω : Type} {p : Program} {image : Image}
    (h : lowerProgram p = .ok image) (sink : Sink ω) (log : Log) (world : ω) :
    (emitProgram p sink log world).log.count .missingEntry = log.count .missingEntry ↔
      image.entry.isSome = true := by
  unfold emitProgram emitLowered
  rw [h]
  dsimp only
  split
  · next hnone =>
    have hcode : (Finding.missingEntry.report .dummy).code = .missingEntry := rfl
    rw [Report.Log.count_add, if_pos hcode, Option.isNone_iff_eq_none.mp hnone]
    simp
  · next hsome =>
    have hentry : image.entry.isSome = true := by
      rwa [← Option.isNone_eq_false_iff, ← Bool.not_eq_true]
    obtain ⟨answer, world'⟩ := sink image world
    cases answer with
    | error fault =>
      have hcode : ((Finding.persistenceFailed fault.message).report .dummy).code ≠
          .missingEntry := by
        show Report.Code.persistenceFailed ≠ .missingEntry
        decide
      dsimp only
      rw [Report.Log.count_add, if_neg hcode]
      simp [hentry]
    | ok _ => simp [hentry]

/-! ### Where the rules agree -/

/-- The program has an external function `main` without arguments. -/
def HasExternalEntry (p : Program) : Prop :=
  ∃ f ∈ p.functions, f.name = entryName ∧ f.params = [] ∧ f.isExternal = true

/-- The image starts with a method that has code, is called `main` and takes no arguments. -/
def StartsWithMain (image : Image) : Prop :=
  ∃ id m, image.entry = some id ∧ image.methods[id]? = some m ∧ m.host = none ∧
    m.name = entryName ∧ m.params = []

/-- The entry of an image is the method of the function `main` without arguments, unless it is
external. -/
theorem Lowering.ImageOf.entry_isSome_iff {image : Image} {M : Methods} {fs : List FunctionDecl}
    {f : FunctionDecl} (h : ImageOf image M fs) (hf : findFunction? fs entryName 0 = some f) :
    image.entry.isSome = true ↔ f.isExternal = false := by
  have hmethods := h.methods.imp fun _ _ hm => hm.1
  have hfind : findFunction? fs entryName 0 = _ := List.find?_eq_bind_findIdx?_getElem?
  rw [← findIdx?_methods hmethods, hf] at hfind
  obtain ⟨id, hid, hget⟩ := Option.bind_eq_some_iff.mp hfind.symm
  obtain ⟨m, hm, hmf⟩ := Forall₂.getElem? hmethods hget
  rw [Array.getElem?_toList] at hm
  have hid' : image.methods.findIdx? (·.hasSignature "main" 0) = some id := hid
  rw [h.entry, entryOf, hid', ← hmf.host_isSome]
  dsimp only
  rw [hm, Option.bind_some]
  cases m.host with
  | none => simp
  | some k => simp

theorem Lowering.ImageOf.startsWithMain_iff {image : Image} {M : Methods} {fs : List FunctionDecl}
    (h : ImageOf image M fs) : StartsWithMain image ↔ image.entry.isSome = true := by
  constructor
  · rintro ⟨id, _, hid, _⟩
    rw [hid]
    rfl
  · intro hsome
    obtain ⟨id, hid⟩ := Option.isSome_iff_exists.mp hsome
    obtain ⟨m, hm, hhost, hparams⟩ := h.entry_spec hid
    obtain ⟨f, hf, hfind⟩ := h.entry_function hid
    obtain ⟨m', hm', hmf, _⟩ := Forall₂.getElem? h.methods hf
    rw [Array.getElem?_toList, hm] at hm'
    obtain rfl := Option.some.inj hm'
    have hname : f.name = "main" ∧ f.arity = 0 := by simpa using List.find?_some hfind
    exact ⟨id, m, hid, hm, hhost, hmf.name.trans hname.1, hparams⟩

/-- The function that the checked program starts with is external exactly when the program says
so: no other function has its name and number of arguments. -/
theorem hasExternalEntry_iff {p : Program} {f : FunctionDecl}
    (hnodup : (p.functions.map fun f => (f.name, f.arity)).Nodup)
    (hf : findFunction? p.functions entryName 0 = some f) :
    HasExternalEntry p ↔ f.isExternal = true := by
  have hsig : f.name = entryName ∧ f.arity = 0 := by simpa using List.find?_some hf
  have hmem : f ∈ p.functions := List.mem_of_find?_eq_some hf
  constructor
  · rintro ⟨g, hg, hname, hparams, hext⟩
    have hgf : g = f := by
      refine List.inj_on_of_nodup_map hnodup hg hmem ?_
      rw [hname, hsig.1, hsig.2, FunctionDecl.arity, hparams]
      rfl
    rwa [← hgf]
  · intro hext
    exact ⟨f, hmem, hsig.1, List.length_eq_zero_iff.mp hsig.2, hext⟩

theorem findFunction?_annotates {fs fs' : List FunctionDecl} (h : List.Forall₂ Annotates fs fs')
    (name : String) (arity : Nat) :
    (findFunction? fs' name arity).map (·.isExternal) =
      (findFunction? fs name arity).map (·.isExternal) := by
  refine (find?_map_eq (fun f f' hf => ?_) h).symm
  obtain ⟨body, rfl⟩ := hf
  exact ⟨rfl, rfl⟩

/-- **Entry points**: the image of a program that is checked without a report starts with `main`,
and storing it reports no missing entry, exactly when the program's `main` is not external. -/
theorem entry_iff_not_external {p : Program} {image : Image} (hc : Clean (checkFresh p).2.log)
    (hl : lowerProgram (checkFresh p).1 = .ok image) :
    (StartsWithMain image ↔ ¬ HasExternalEntry p) ∧
      ∀ (ω : Type) (sink : Sink ω) (log : Log) (world : ω),
        (emitProgram (checkFresh p).1 sink log world).log.count .missingEntry =
          log.count .missingEntry ↔ ¬ HasExternalEntry p := by
  obtain ⟨hok, hann⟩ := checkFresh_sound hc
  obtain ⟨M, him⟩ := lowerProgram_layout hl
  obtain ⟨f, hf⟩ := checkFresh_findFunction?_entry hc
  have hext := findFunction?_annotates hann entryName 0
  rw [hf] at hext
  obtain ⟨f', hf', hff⟩ := Option.map_eq_some_iff.mp hext
  have hentry : image.entry.isSome = true ↔ ¬ HasExternalEntry p := by
    rw [him.entry_isSome_iff hf', hff,
      hasExternalEntry_iff (map_annotates hann ▸ hok.distinct) hf, Bool.not_eq_true]
  refine ⟨him.startsWithMain_iff.trans hentry, fun ω sink log world => ?_⟩
  exact (count_missingEntry_emitProgram hl sink log world).trans hentry

/-- The program `nearProgram`, whose `main` has a body. -/
theorem nearProgram_entry :
    (Clean (checkFresh nearProgram).2.log ∧
      lowerProgram (checkFresh nearProgram).1 = .ok nearImage ∧ ¬ HasExternalEntry nearProgram) ∧
    StartsWithMain nearImage ∧ ∀ (ω : Type) (sink : Sink ω) (log : Log) (world : ω),
      (emitProgram (checkFresh nearProgram).1 sink log world).log.count .missingEntry =
        log.count .missingEntry := by
  have hc := nearProgram_compiled.clean
  have hl := nearProgram_compiled.lowered
  have hext : ¬ HasExternalEntry nearProgram := by
    unfold HasExternalEntry
    decide +kernel
  obtain ⟨hstart, hcount⟩ := entry_iff_not_external hc hl
  exact ⟨⟨hc, hl, hext⟩, hstart.mpr hext, fun ω sink log world =>
    (hcount ω sink log world).mpr hext⟩

/-- A program whose only function is an external `main`. -/
def externalEntryProgram : Program where
  functions := [
    { name := "main", params := [], returnType := .void, body := [], external := some "sys",
      span := .dummy }]
  source := none

/-- Checking accepts an external `main` and lowering makes an image, but the image has no entry, and
storing it reports that the entry is missing. -/
theorem externalEntryProgram_missing :
    Clean (checkFresh externalEntryProgram).2.log ∧
      ∃ image, lowerProgram (checkFresh externalEntryProgram).1 = .ok image ∧
        image.entry = none ∧ ¬ StartsWithMain image ∧
        (emitProgram (checkFresh externalEntryProgram).1 Sink.memory .empty none).log.count
          .missingEntry = 1 := by
  refine ⟨by unfold Clean; decide +kernel,
    (lowerProgram (checkFresh externalEntryProgram).1).toOption.getD default, by decide +kernel,
    by decide +kernel, ?_, by decide +kernel⟩
  rintro ⟨id, m, hid, _⟩
  rw [show ((lowerProgram (checkFresh externalEntryProgram).1).toOption.getD default).entry = none
    by decide +kernel] at hid
  cases hid

end Quill
