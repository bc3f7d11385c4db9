import Quill.Proofs.Lowering.Image
import Quill.Proofs.Lowering.Verified
import Quill.Proofs.Machine.Advance
import Quill.Proofs.Typing.Program

/-! # Compiled programs

A program is compiled by checking it with a fresh table of symbols and lowering the annotated tree.
`Compiles p image` says that checking has reported nothing and that `image` is what lowering gives,
with a method to start with.  Then every method of the image is verified, and the run starts. -/

namespace Quill

open Code Lowering Machine Typing

/-- The image is that of a program which is checked without a report, and it can be started. -/
structure Compiles (p : Program) (image : Image) : Prop where
  clean : Clean (checkFresh p).2.log
  lowered : lowerProgram (checkFresh p).1 = .ok image
  entry : image.entry.isSome = true

/-- Every method with code is verified. -/
def Verified (image : Image) : Prop :=
  ∀ (id : Nat) m, image.methods[id]? = some m → m.host = none → MethodVerified image m

section

variable {p : Program} {image : Image}

/-- The tree of the program is well typed, and the image is laid out for it. -/
theorem Compiles.imageOf (h : Compiles p image) :
    ProgramOk (checkFresh p).1.functions ∧ ∃ M, ImageOf image M (checkFresh p).1.functions :=
  ⟨(checkFresh_sound h.clean).1, lowerProgram_layout h.lowered⟩

theorem Compiles.verified (h : Compiles p image) : Verified image := by
  obtain ⟨hok, M, him⟩ := h.imageOf
  exact fun id m hid hhost => him.verified hok hid hhost

theorem Compiles.start (h : Compiles p image) (console : Console) :
    ∃ id m, image.entry = some id ∧ image.methods[id]? = some m ∧ m.host = none ∧ m.params = [] ∧
      startEntry image .bare console = .ok (.of [] [] (calledFrame m ⟨#[], console⟩ 0 0 id []) []
        (calledEmpties m ⟨#[], console⟩ 0) ⟨#[], console⟩) := by
  obtain ⟨_, M, him⟩ := h.imageOf
  obtain ⟨id, hid⟩ := Option.isSome_iff_exists.mp h.entry
  obtain ⟨m, hm, hhost, hparams⟩ := him.entry_spec hid
  refine ⟨id, m, hid, hm, hhost, hparams, ?_⟩
  have hcallee : callee image id 0 = .ok m :=
    callee_eq hm hhost (by rw [Method.arity, hparams]; rfl)
  unfold startEntry
  rw [hid]
  dsimp only
  unfold Machine.start
  rw [show callee image id ([] : List Value).length = .ok m from hcallee]
  dsimp only
  rw [Heap.bare, newFrame_eq]
  rfl

end

/-! ### A program -/

/-- Whether a number is near to zero: a call of the host, a conversion, and a variable that is
assigned after its declaration. -/
def nearProgram : Program where
  functions := [
    { name := "near", params := [⟨"x", .integer, .dummy⟩], returnType := .boolean,
      body := [
        .decl .dummy "limit" .float none,
        .assign .dummy "limit" .dummy (.literal default (.integer 3)),
        .ret .dummy (some (.compare default .lt (.call default "abs" [.name default "x"])
          (.name default "limit")))],
      external := none, span := .dummy },
    { name := "abs", params := [⟨"n", .integer, .dummy⟩], returnType := .integer, body := [],
      external := some "math", span := .dummy },
    { name := "main", params := [], returnType := .integer,
      body := [
        .ifThen .dummy (.call default "near" [.literal default (.integer (-2))])
          [.ret .dummy (some (.literal default (.integer 1)))],
        .ret .dummy (some (.literal default (.integer 0)))],
      external := none, span := .dummy }]
  source := none

def nearImage : Image := (lowerProgram (checkFresh nearProgram).1).toOption.getD default

theorem nearProgram_compiled : Compiles nearProgram nearImage where
  clean := by
    unfold Clean
    decide +kernel
  lowered := by decide +kernel
  entry := by decide +kernel

end Quill
