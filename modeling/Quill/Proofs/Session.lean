import Quill.Proofs.Compilation
import Quill.Proofs.Files

/-! # Compilations in sequence

A session compiles one program after the other, and whatever a compilation comes to (reports from
checking, a fault in the middle of lowering, no entry, an image that could not be stored) it leaves
a table, reports and an emitter behind.  The next one starts by resetting all three, and what is
left then is a new session of the same configuration (`compileWith_new`).

So only the world could carry something over: the file that a compilation has written is there when
the next one writes it.  `Steady` sinks do not mind: asked to store an image, they answer every
later request as before.  Those of a configuration are steady (`Config.steady_sink`), and
`compile_independent` puts the two together. -/

namespace Quill

open Code (Image)
open Lowering Typing
open Report (Log)

variable {ω : Type}

/-! ### What a sink answers -/

namespace Sink

/-- In both worlds the sink stores the same images, and has the same faults with the others. -/
def SameAnswers (sink : Sink ω) (world world' : ω) : Prop :=
  ∀ image, (sink image world).1 = (sink image world').1

/-- A request to store an image does not change what the sink answers. -/
def Steady (sink : Sink ω) : Prop :=
  ∀ image world, sink.SameAnswers world (sink image world).2

theorem fst_toFile (path : String) (content : Image → List UInt8) (image : Image) (files : Files) :
    (toFile path content image files).1 =
      ((files.write path (content image)).map fun _ => ()).mapError fun fault =>
        .io fault.message := by
  unfold toFile
  cases files.write path (content image) <;> rfl

/-- A path that was written can be written again, and what is written does not matter. -/
theorem steady_toFile (path : String) (content : Image → List UInt8) :
    (toFile path content).Steady := by
  intro image files image'
  rw [fst_toFile, fst_toFile]
  unfold toFile
  cases hwrite : files.write path (content image) with
  | error fault => rfl
  | ok files' =>
    obtain ⟨_, hagain⟩ := Files.write_again hwrite (content image')
    rw [Files.write_content files path _ (content image), hwrite, hagain]
    rfl

end Sink

theorem Config.steady_sink (c : Config) : c.sink.Steady := by
  obtain ⟨output, format, sourcePath⟩ := c
  cases output with
  | none => exact fun _ _ _ => rfl
  | some path =>
    cases format with
    | bytecode => exact Sink.steady_toFile path Wire.encode
    | assembly => exact Sink.steady_toFile path fun p => Text.toBytes p.listing

theorem emitProgram_sameAnswers {sink : Sink ω} {world world' : ω}
    (h : sink.SameAnswers world world') (p : Program) (log : Log) :
    (emitProgram p sink log world).image = (emitProgram p sink log world').image ∧
      (emitProgram p sink log world).log = (emitProgram p sink log world').log := by
  unfold emitProgram emitLowered
  cases lowerProgram p with
  | error fault => exact ⟨rfl, rfl⟩
  | ok image =>
    dsimp only
    by_cases hnone : image.entry.isNone = true
    · rw [if_pos hnone, if_pos hnone]
      exact ⟨rfl, rfl⟩
    · rw [if_neg hnone, if_neg hnone]
      have himage := h image
      generalize sink image world = asked at himage ⊢
      generalize sink image world' = asked' at himage ⊢
      obtain ⟨answer, w⟩ := asked
      obtain ⟨answer', w'⟩ := asked'
      obtain rfl : answer = answer' := himage
      cases answer with
      | error fault => exact ⟨rfl, rfl⟩
      | ok _ => exact ⟨rfl, rfl⟩

/-- The back half of a compilation leaves the world to the sink, which is asked once at most. -/
theorem Emission.world_eq_or {p : Program} {sink : Sink ω} {log : Log} {world : ω} {r : Emitted ω}
    (h : Emission p sink log world r) :
    r.world = world ∨ ∃ image, r.world = (sink image world).2 := by
  cases h with
  | unlowered _ _ _ => exact .inl rfl
  | entryless _ _ _ _ => exact .inl rfl
  | failed _ hasked _ _ => exact .inr ⟨_, (congrArg Prod.snd hasked).symm⟩
  | stored _ hasked => exact .inr ⟨_, (congrArg Prod.snd hasked).symm⟩

namespace Session

/-! ### One compilation -/

/-- Whatever an earlier compilation has left, resetting leaves nothing of it. -/
theorem reset_eq_new (s : Session) : s.reset = new s.config := rfl

/-- A compilation takes nothing of its session but the configuration. -/
theorem compileWith_new (s : Session) (sink : Sink ω) (p : Program) (world : ω) :
    s.compileWith sink p world = (new s.config).compileWith sink p world := by
  unfold compileWith
  rw [reset_eq_new, reset_eq_new (new s.config)]
  rfl

theorem config_compileWith (s : Session) (sink : Sink ω) (p : Program) (world : ω) :
    (s.compileWith sink p world).session.config = s.config := by
  cases h : (s.checked p).2.log.hasReports with
  | true => rw [compileWith_of_reports h]
  | false => rw [compileWith_of_clean h]

theorem compileWith_world_eq_or (s : Session) (sink : Sink ω) (p : Program) (world : ω) :
    (s.compileWith sink p world).world = world ∨
      ∃ image, (s.compileWith sink p world).world = (sink image world).2 := by
  cases h : (s.checked p).2.log.hasReports with
  | true =>
    rw [compileWith_of_reports h]
    exact .inl rfl
  | false =>
    rw [compileWith_of_clean h]
    exact (emitProgram_emission (s.checked p).1 sink .empty world).world_eq_or

theorem compileWith_sameAnswers {sink : Sink ω} {world world' : ω}
    (h : sink.SameAnswers world world') (s : Session) (p : Program) :
    (s.compileWith sink p world).image = (s.compileWith sink p world').image ∧
      (s.compileWith sink p world).session = (s.compileWith sink p world').session ∧
      (s.compileWith sink p world).program = (s.compileWith sink p world').program := by
  cases hreports : (s.checked p).2.log.hasReports with
  | true =>
    rw [compileWith_of_reports hreports, compileWith_of_reports hreports]
    exact ⟨rfl, rfl, rfl⟩
  | false =>
    obtain ⟨himage, hlog⟩ := emitProgram_sameAnswers h (s.checked p).1 .empty
    rw [compileWith_of_clean hreports, compileWith_of_clean hreports]
    dsimp only
    rw [himage, hlog]
    exact ⟨rfl, rfl, rfl⟩

/-! ### A sequence of compilations -/

/-- The session and the world after compiling programs in order, each with a sink of its own. -/
def compileEach (s : Session) (world : ω) : List (Program × Sink ω) → Session × ω
  | [] => (s, world)
  | (p, sink) :: rest =>
    let compiled := s.compileWith sink p world
    compiled.session.compileEach compiled.world rest

/-- The session and the files after compiling programs in order. -/
def compileAll (s : Session) (files : Files) : List Program → Session × Files
  | [] => (s, files)
  | p :: rest =>
    let compiled := s.compile p files
    compiled.session.compileAll compiled.world rest

/-- The images that a sink is asked to store, in order. -/
def asked (s : Session) (p : Program) : List Image :=
  (s.compileWith (fun image calls => (.ok (), calls ++ [image])) p []).world

theorem config_compileEach (jobs : List (Program × Sink ω)) :
    ∀ (s : Session) (world : ω), (s.compileEach world jobs).1.config = s.config := by
  induction jobs with
  | nil => exact fun _ _ => rfl
  | cons job rest ih => exact fun s world => (ih _ _).trans (config_compileWith s job.2 job.1 world)

theorem config_compileAll (ps : List Program) :
    ∀ (s : Session) (files : Files), (s.compileAll files ps).1.config = s.config := by
  induction ps with
  | nil => exact fun _ _ => rfl
  | cons p rest ih =>
    exact fun s files => (ih _ _).trans (config_compileWith s s.config.sink p files)

/-- After any number of compilations the sink of the session answers as before them. -/
theorem sameAnswers_compileAll (ps : List Program) : ∀ (s : Session) (files : Files),
    s.config.sink.SameAnswers files (s.compileAll files ps).2 := by
  induction ps with
  | nil => exact fun _ _ _ => rfl
  | cons p rest ih =>
    intro s files image
    have hconfig : (s.compile p files).session.config = s.config :=
      config_compileWith s s.config.sink p files
    have hrest := ih (s.compile p files).session (s.compile p files).world image
    rw [hconfig] at hrest
    refine Eq.trans ?_ hrest
    obtain hsame | ⟨asked, hasked⟩ := compileWith_world_eq_or s s.config.sink p files
    · exact congrArg (fun w => (s.config.sink image w).1) hsame.symm
    · have hsteady := s.config.steady_sink asked files image
      rwa [← hasked] at hsteady

/-- **Compilations do not influence each other.**  After a session has compiled any programs, one
more has the image, the reports, the symbol table and the annotations that it has alone, on a new
session and with the files as they were at first, and its sink is asked to store the same.  And if
all of them are stored by any sinks, that may fail as they like, the last compilation has all its
results as on a new session. -/
theorem compile_independent (config : Config) (earlier : List Program) (p : Program)
    (files : Files) :
    let past := (new config).compileAll files earlier
    let last := past.1.compile p past.2
    let alone := (new config).compile p files
    (last.image = alone.image ∧ last.session = alone.session ∧ last.program = alone.program ∧
      past.1.asked p = (new config).asked p) ∧
    ∀ {ω ω' : Type} (others : List (Program × Sink ω)) (start : ω) (sink : Sink ω') (world : ω'),
      ((new config).compileEach start others).1.compileWith sink p world =
        (new config).compileWith sink p world := by
  intro past last alone
  have hconfig : past.1.config = config := config_compileAll earlier (new config) files
  have hreset : ∀ {ω : Type} (sink : Sink ω) world,
      past.1.compileWith sink p world = (new config).compileWith sink p world := by
    intro ω sink world
    rw [compileWith_new, hconfig]
  have hlast : last = (new config).compileWith config.sink p past.2 := by
    show past.1.compileWith past.1.config.sink p past.2 = _
    rw [hreset, hconfig]
  have hsame : config.sink.SameAnswers files past.2 :=
    sameAnswers_compileAll earlier (new config) files
  obtain ⟨himage, hsession, hprogram⟩ := compileWith_sameAnswers hsame (new config) p
  refine ⟨⟨?_, ?_, ?_, ?_⟩, ?_⟩
  · rw [hlast]
    exact himage.symm
  · rw [hlast]
    exact hsession.symm
  · rw [hlast]
    exact hprogram.symm
  · exact congrArg Compiled.world (hreset _ [])
  · intro ω ω' others start sink world
    rw [compileWith_new, config_compileEach]
    rfl

end Session

end Quill
