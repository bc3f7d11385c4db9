import Quill.Command.Basic
import Quill.Files

/-! # The program

The outermost layer: reads files and lines, prints, and drives the machine one instruction after
the other, so that a prompt is written before the line that answers it is read. -/

namespace Quill.CommandLine

open Machine

/-- The number of a failure; some are told as negative words. -/
def failureNumber (code : UInt32) : Nat :=
  if code.toNat < 0x80000000 then code.toNat else UInt32.size - code.toNat

/-- The text of a failure to read a file. -/
def readFailure : IO.Error → String
  | .noFileOrDirectory .. => FileFault.notFound.message
  | .inappropriateType _ code _ =>
    if failureNumber code = 20 then FileFault.notDirectory.message
    else FileFault.isDirectory.message
  | .invalidArgument _ code message =>
    if failureNumber code = 36 then FileFault.nameTooLong.message else message
  | .permissionDenied .. => "Permission denied (os error 13)"
  | e => toString e

/-- The bytes of a file, or the text of the failure. -/
def readFile (path : String) : IO (Except String Wire.Bytes) := do
  try
    let bytes ← IO.FS.readBinFile path
    return .ok bytes.data.toList
  catch e => return .error (readFailure e)

/-- The next line of the input, or none at its end. -/
def nextLine : IO (Option (Except String String)) := do
  try
    let line ← (← IO.getStdin).getLine
    if line.isEmpty then return none else return some (.ok (withoutLineEnd line))
  catch _ => return some (.error unreadableLine)

/-- Writes what the program has written, and forgets it. -/
def flushOutput (s : State) : IO State := do
  if s.console.output.isEmpty then return s
  else
    let out ← IO.getStdout
    out.putStr s.console.output
    out.flush
    return { s with console := s.console.clear }

/-- Carries out a run to its end. -/
partial def drive (u : Setup) (r : Run LabelCounter) (atEnd : Bool) :
    IO (Outcome × LabelCounter) := do
  let state ← flushOutput r.state
  if !atEnd && awaitsLine u.image state then
    match ← nextLine with
    | none => drive u { r with state } true
    | some line =>
      let console := { state.console with input := [line] }
      drive u { r with state := { state with console } } false
  else
    match advance u LabelCounter.observer { r with state } with
    | .running r => drive u r atEnd
    | .ended outcome r =>
      let _ ← flushOutput r.state
      return (outcome, r.seen)

/-- Runs an image and closes with the messages of the run. -/
def runImage (path : String) (options : Command.RunOptions) (image : Code.Image) : IO UInt32 := do
  let u := Command.setupOf image options
  let (outcome, counter) ← match startEntry image .bare (Console.ofLines []) with
    | .error fault => pure (.error fault, LabelCounter.zero)
    | .ok state => drive u { state, steps := 0, seen := .zero } false
  let (code, text) := Command.closing path options outcome counter
  IO.eprint text
  return code.toUInt32

def write (r : Command.Reply) : IO UInt32 := do
  IO.eprint r.stderr
  IO.print r.stdout
  return r.code.toUInt32

def pathOf : Command.Request → Option String
  | .run options => options.path
  | .list path => some path
  | _ => none

end Quill.CommandLine

open Quill Quill.CommandLine in
/-- Carries out what the arguments ask for. -/
def main (args : List String) : IO UInt32 := do
  let request := Command.Request.ofArgs args
  let content ← match pathOf request with
    | some path => readFile path
    | none => pure (.error "")
  let read := fun _ => content
  match request, request.reply read with
  | _, some reply => write reply
  | .run { path := some path, limit, profileLabels }, none =>
    match Command.load read path with
    | .error reply => write reply
    | .ok image => runImage path { path, limit, profileLabels } image
  | _, none => return 0
