import Quill.Code.Listing
import Quill.Files
import Quill.Lowering.Emitter
import Quill.Typing.Program
import Quill.Wire.File

/-! # Compilation

`emitProgram` lowers a program and hands the image to a sink, which stores it; `Session.compile`
checks a program first and goes on only if nothing was reported.  A session holds the symbol
table and the reports of its last compilation and the emitter with what lowering has left in it;
every compilation starts by resetting all of them. -/

namespace Quill

open Code (Image)
open Report (Log Finding)

/-- How images are stored: a sink succeeds or fails, and changes the world it stores them in. -/
abbrev Sink (ω : Type) := Image → ω → Except Wire.FileFault Unit × ω

namespace Sink

def memory : Sink (Option Image) := fun p _ => (.ok (), some p)

/-- The sink that writes bytes to a file. -/
def toFile (path : String) (content : Image → List UInt8) : Sink Files := fun p files =>
  match files.write path (content p) with
  | .ok files => (.ok (), files)
  | .error fault => (.error (.io fault.message), files)

/-- The sink that writes a bytecode file. -/
def bytecode (path : String) : Sink Files := toFile path Wire.encode

/-- The sink that writes an assembly listing. -/
def assembly (path : String) : Sink Files := toFile path fun p => Text.toBytes p.listing

end Sink

/-- What comes out of the back half of a compilation: the image if it was stored, the reports,
and the world after storing. -/
structure Emitted (ω : Type) where
  image : Option Image
  log : Log
  world : ω

/-- What lowering has given, stored by a sink; a failure adds one report. -/
def emitLowered (lowered : Except Lowering.Fault Image) (sink : Sink ω) (log : Log) (world : ω) :
    Emitted ω :=
  match lowered with
  | .error fault =>
    { image := none, log := log.add ((Finding.loweringFailed fault.message).report .dummy), world }
  | .ok image =>
    if image.entry.isNone then
      { image := none, log := log.add (Finding.missingEntry.report .dummy), world }
    else match sink image world with
      | (.error fault, world) =>
        { image := none, log := log.add ((Finding.persistenceFailed fault.message).report .dummy),
          world }
      | (.ok _, world) => { image := some image, log, world }

/-- The image of a program, stored by a sink; a failure adds one report. -/
def emitProgram (p : Program) (sink : Sink ω) (log : Log) (world : ω) : Emitted ω :=
  emitLowered (Lowering.lowerProgram p) sink log world

/-- The same with an emitter, and the emitter as lowering leaves it. -/
def Lowering.Emitter.emitProgram (e : Lowering.Emitter) (p : Program) (sink : Sink ω) (log : Log)
    (world : ω) : Emitted ω × Lowering.Emitter :=
  let (lowered, e) := e.lower p
  (emitLowered lowered sink log world, e)

/-- The form in which a session stores images. -/
inductive OutputFormat where
  | bytecode
  | assembly
  deriving DecidableEq, Repr, Inhabited

/-- What a session is asked to do: where and how to store images, and the path of the source
text of programs that do not tell it. -/
structure Config where
  output : Option String
  format : OutputFormat
  sourcePath : Option String
  deriving DecidableEq, Repr, Inhabited

/-- The sink of a configuration; without output path images are not stored. -/
def Config.sink (c : Config) : Sink Files :=
  match c.output, c.format with
  | none, _ => fun _ files => (.ok (), files)
  | some path, .bytecode => Sink.bytecode path
  | some path, .assembly => Sink.assembly path

/-- A session: its configuration, the symbol table and reports of its last compilation, and its
emitter. -/
structure Session where
  config : Config
  table : Scope.Table
  log : Log
  emitter : Lowering.Emitter
  deriving Inhabited

/-- What comes out of a compilation. -/
structure Compiled (ω : Type) where
  session : Session
  /-- The program with its annotations and the path of its source text. -/
  program : Program
  image : Option Image
  world : ω

namespace Session

/-- A session that has compiled nothing. -/
def new (config : Config) : Session :=
  { config, table := .initial, log := .empty, emitter := .new }

/-- A session with a new symbol table and without reports, and with its emitter cleared. -/
def reset (s : Session) : Session :=
  { s with table := .initial, log := .empty, emitter := s.emitter.reset }

/-- The program with the path of its source text, if it or the session tells one. -/
def withSource (s : Session) (p : Program) : Program :=
  { p with source := p.source.or s.config.sourcePath }

/-- The compilation of a program, its image stored by a sink. -/
def compileWith (s : Session) (sink : Sink ω) (p : Program) (world : ω) : Compiled ω :=
  let s := s.reset
  let (program, checked) := Typing.checkProgram (s.withSource p) ⟨s.table, s.log⟩
  if checked.log.hasReports then
    { session := { s with table := checked.table, log := checked.log }, program,
      image := none, world }
  else
    let (emitted, emitter) := s.emitter.emitProgram program sink checked.log world
    { session := { s with table := checked.table, log := emitted.log, emitter }, program,
      image := emitted.image, world := emitted.world }

/-- The compilation of a program, its image stored as configured. -/
def compile (s : Session) (p : Program) (files : Files) : Compiled Files :=
  s.compileWith s.config.sink p files

end Session

end Quill
