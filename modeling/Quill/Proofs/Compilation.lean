import Quill.Proofs.Lowering.Emitter
import Quill.Proofs.Report.Log
import Quill.Session

/-! # The stages of a compilation

A compilation checks a program, lowers it, asks for an entry, and hands the image to a sink.  Each
stage runs only if the stages before it have gone well.

* `startable? p` is the image of a tree, if it can be lowered and started.
* `Emission` lists the ways in which the back half of a compilation can end: without an image,
  with an image that has no entry, with one that the sink could not store, and with a stored image.
  Of these only the last leaves the log as it was.
* `Session.handed? s p` is the image that the sink is asked to store: at most one, and none if
  checking has reported anything.
* `Sink.recorded` keeps a list of what a sink is asked to store, whatever its answers are.

`compile_gated` puts the stages together. -/

namespace Quill

open Code (Image)
open Lowering Typing
open Report (Log Finding)

variable {ω : Type}

/-! ### Storing images -/

/-- The image of a tree, if it can be lowered and has an entry. -/
def startable? (p : Program) : Option Image :=
  match lowerProgram p with
  | .error _ => none
  | .ok image => if image.entry.isSome then some image else none

/-- How the back half of a compilation ends. -/
inductive Emission (p : Program) (sink : Sink ω) (log : Log) (world : ω) : Emitted ω → Prop
  /-- There is no image, and the sink is not asked. -/
  | unlowered {fault : Fault} {r : Report} : lowerProgram p = .error fault →
      r.code = .loweringFailed → r.span = none → Emission p sink log world ⟨none, log.add r, world⟩
  /-- The image cannot be started, and the sink is not asked. -/
  | entryless {image : Image} {r : Report} : lowerProgram p = .ok image → image.entry = none →
      r.code = .missingEntry → r.span = none → Emission p sink log world ⟨none, log.add r, world⟩
  /-- The sink could not store the image. -/
  | failed {image : Image} {fault : Wire.FileFault} {world' : ω} {r : Report} :
      startable? p = some image → sink image world = (.error fault, world') →
      r.code = .persistenceFailed → r.span = none →
      Emission p sink log world ⟨none, log.add r, world'⟩
  /-- The sink has stored the image. -/
  | stored {image : Image} {world' : ω} : startable? p = some image →
      sink image world = (.ok (), world') → Emission p sink log world ⟨some image, log, world'⟩

theorem emitProgram_emission (p : Program) (sink : Sink ω) (log : Log) (world : ω) :
    Emission p sink log world (emitProgram p sink log world) := by
  unfold emitProgram emitLowered
  cases hl : lowerProgram p with
  | error fault => exact .unlowered hl rfl rfl
  | ok image =>
    by_cases hentry : image.entry.isSome = true
    · have hsome : startable? p = some image := by simp [startable?, hl, hentry]
      have hnot : image.entry.isNone = false := by simpa using hentry
      simp only [hnot, Bool.false_eq_true, if_false]
      rcases hs : sink image world with ⟨answer, world'⟩
      cases answer with
      | error fault => exact .failed hsome hs rfl rfl
      | ok _ => exact .stored hsome hs
    · have hnone : image.entry = none := by simpa using hentry
      simp only [hnone, Option.isNone_none, if_true]
      exact .entryless hl hnone rfl rfl

theorem fst_emitProgram (e : Emitter) (p : Program) (sink : Sink ω) (log : Log) (world : ω) :
    (e.emitProgram p sink log world).1 = emitProgram p sink log world := by
  show emitLowered (e.lower p).1 sink log world = _
  rw [e.fst_lower]
  rfl

section

variable {p : Program} {sink : Sink ω} {log : Log} {world : ω} {r : Emitted ω}

theorem Emission.image_isSome_iff (h : Emission p sink log world r) :
    r.image.isSome = true ↔ r.log = log := by
  have hne : ∀ r : Report, log.add r ≠ log := by
    intro r heq
    have hsize := Log.size_add log r
    rw [heq] at hsize
    omega
  cases h with
  | unlowered _ _ _ => simp [hne]
  | entryless _ _ _ _ => simp [hne]
  | failed _ _ _ _ => simp [hne]
  | stored _ _ => simp

theorem Emission.startable (h : Emission p sink log world r) {image : Image}
    (himage : r.image = some image) : startable? p = some image := by
  cases h with
  | unlowered _ _ _ => cases himage
  | entryless _ _ _ _ => cases himage
  | failed _ _ _ _ => cases himage
  | stored hsome _ => exact hsome.trans himage

end

/-- Nothing but the answer of the sink to the one image matters. -/
theorem emitProgram_congr {p : Program} {sink sink' : Sink ω} {world : ω}
    (h : ∀ image, startable? p = some image → sink' image world = sink image world) (log : Log) :
    emitProgram p sink' log world = emitProgram p sink log world := by
  unfold emitProgram emitLowered
  cases hl : lowerProgram p with
  | error fault => rfl
  | ok image =>
    by_cases hentry : image.entry.isSome = true
    · dsimp only
      rw [h image (by simp [startable?, hl, hentry])]
    · have hnot : image.entry.isNone = true := by simpa using hentry
      simp only [hnot, if_true]

/-- The sink, with a list of the images that it has been asked to store. -/
def Sink.recorded (sink : Sink ω) : Sink (ω × List Image) := fun image w =>
  ((sink image w.1).1, ((sink image w.1).2, w.2 ++ [image]))

/-- Recording changes nothing, and tells that the sink is asked once if there is an image. -/
theorem emitProgram_recorded (p : Program) (sink : Sink ω) (log : Log) (world : ω)
    (calls : List Image) :
    emitProgram p sink.recorded log (world, calls) =
      { image := (emitProgram p sink log world).image, log := (emitProgram p sink log world).log,
        world := ((emitProgram p sink log world).world, calls ++ (startable? p).toList) } := by
  unfold emitProgram emitLowered startable?
  cases lowerProgram p with
  | error fault => simp
  | ok image =>
    by_cases hentry : image.entry.isSome = true
    · have hnot : ¬ image.entry.isNone = true := by simpa [Option.isSome_iff_ne_none] using hentry
      have hrecorded : sink.recorded image (world, calls) =
        ((sink image world).1, ((sink image world).2, calls ++ [image])) := rfl
      dsimp only
      rw [if_neg hnot, if_neg hnot, if_pos hentry, hrecorded]
      obtain ⟨answer, world'⟩ := sink image world
      cases answer with
      | error fault => rfl
      | ok _ => rfl
    · have hnone : image.entry.isNone = true := by simpa using hentry
      dsimp only
      rw [if_pos hnone, if_pos hnone, if_neg hentry]
      simp

/-! ### Compilations -/

namespace Session

/-- The program and the state after checking, as a compilation starts with it. -/
def checked (s : Session) (p : Program) : Program × Typing.State :=
  checkProgram (s.withSource p) ⟨.initial, .empty⟩

/-- The image that the sink of a compilation is asked to store. -/
def handed? (s : Session) (p : Program) : Option Image :=
  if (s.checked p).2.log.hasReports then none else startable? (s.checked p).1

theorem compileWith_of_reports {s : Session} {p : Program}
    (h : (s.checked p).2.log.hasReports = true) (sink : Sink ω) (world : ω) :
    s.compileWith sink p world =
      { session := ⟨s.config, (s.checked p).2.table, (s.checked p).2.log, s.emitter.reset⟩,
        program := (s.checked p).1, image := none, world } := if_pos h

theorem compileWith_of_clean {s : Session} {p : Program}
    (h : (s.checked p).2.log.hasReports = false) (sink : Sink ω) (world : ω) :
    s.compileWith sink p world =
      let emitted := emitProgram (s.checked p).1 sink .empty world
      let emitter := (s.emitter.reset.lower (s.checked p).1).2
      { session := ⟨s.config, (s.checked p).2.table, emitted.log, emitter⟩,
        program := (s.checked p).1, image := emitted.image, world := emitted.world } := by
  have hnot : ¬ (s.checked p).2.log.hasReports = true := by rw [h]; decide
  rw [← fst_emitProgram s.emitter.reset, ← (Log.hasReports_eq_false_iff _).mp h]
  exact if_neg hnot

/-- **Stage gates**: a compilation gives an image back exactly if it leaves no report.  If checking
has reported anything, the compilation ends there: nothing is lowered, the emitter is just cleared,
and the sink is not asked.  If not, at most one report is added, with no image given back.  An image
that is given back is the one that the sink was asked to store; no other answer of the sink matters,
and whatever it answers, it is asked once if there is an image that can be started and never
otherwise. -/
theorem compile_gated (s : Session) (sink : Sink ω) (p : Program) (world : ω) :
    ((s.compileWith sink p world).image.isSome = true ↔
      (s.compileWith sink p world).session.log.isEmpty = true) ∧
    ((s.checked p).2.log.hasReports = true →
      (s.compileWith sink p world).image = none ∧
      (s.compileWith sink p world).session.log = (s.checked p).2.log ∧
      (s.compileWith sink p world).session.emitter = s.emitter.reset ∧
      (s.compileWith sink p world).world = world) ∧
    ((s.checked p).2.log.hasReports = false →
      Emission (s.checked p).1 sink (s.checked p).2.log world
        ⟨(s.compileWith sink p world).image, (s.compileWith sink p world).session.log,
          (s.compileWith sink p world).world⟩) ∧
    (∀ image, (s.compileWith sink p world).image = some image → s.handed? p = some image) ∧
    (∀ sink' : Sink ω, (∀ image, s.handed? p = some image → sink' image world = sink image world) →
      s.compileWith sink' p world = s.compileWith sink p world) ∧
    ∀ calls, s.compileWith sink.recorded p (world, calls) =
      { session := (s.compileWith sink p world).session,
        program := (s.compileWith sink p world).program,
        image := (s.compileWith sink p world).image,
        world := ((s.compileWith sink p world).world, calls ++ (s.handed? p).toList) } := by
  cases h : (s.checked p).2.log.hasReports with
  | true =>
    have hnone : s.handed? p = none := by simp [handed?, h]
    have hne : (s.checked p).2.log.isEmpty = false := by
      rw [Bool.eq_false_iff, Ne, Log.isEmpty_iff, ← Log.hasReports_eq_false_iff, h]
      decide
    simp only [compileWith_of_reports h, hnone]
    simp [hne]
  | false =>
    have hempty : (s.checked p).2.log = .empty := (Log.hasReports_eq_false_iff _).mp h
    have hhanded : s.handed? p = startable? (s.checked p).1 := by simp [handed?, h]
    have hem := emitProgram_emission (s.checked p).1 sink .empty world
    simp only [compileWith_of_clean h, hhanded, hempty]
    refine ⟨?_, by simp, fun _ => hem, fun image => hem.startable, fun sink' hsink' => ?_,
      fun calls => ?_⟩
    · rw [hem.image_isSome_iff, Log.isEmpty_iff]
    · rw [emitProgram_congr hsink']
    · rw [emitProgram_recorded]

end Session

end Quill
