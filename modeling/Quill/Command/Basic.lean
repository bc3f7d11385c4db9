import Quill.Code.Listing
import Quill.Command.Options
import Quill.Machine.Run
import Quill.Report.Code
import Quill.Text.Pieces
import Quill.Wire.File

/-! # The command line

`Request.ofArgs` reads the arguments of the program; `Request.reply` answers the requests that
run nothing.  Running a file is loading it (`load`), a run of the machine, and a closing message
(`closing`).  What stands on the two output streams is a value, `Reply`. -/

namespace Quill.Command

open Code (Image)
open Machine (LabelCounter)

inductive Request where
  | usage
  | version
  | run (options : RunOptions)
  | wrongOptions (fault : OptionFault) (withUsage : Bool)
  | list (path : String)
  | listUsage
  | explain (code : String)
  | explainUsage
  | unknown (name : String)
  deriving DecidableEq, Repr

/-! ### Reading the arguments -/

/-- The last part of a path that names a file. -/
def fileName? (path : String) : Option String :=
  match ((Text.pieces '/' path).filter fun p => p != "" && p != ".").getLast? with
  | some name => if name = ".." then none else some name
  | none => none

/-- The letters after the last dot of a file name; a dot at its start begins no extension. -/
def extension? (path : String) : Option (List Char) := do
  let name ← fileName? path
  let reversed := name.toList.reverse
  let stem := (reversed.dropWhile (· != '.')).drop 1
  if reversed.contains '.' && !stem.isEmpty then
    return (reversed.takeWhile (· != '.')).reverse
  else none

/-- The path names a bytecode file, in any case. -/
def isBytecodePath (path : String) : Bool :=
  match extension? path with
  | some ext => ext.map Char.toLower == "qbc".toList
  | none => false

/-- The request for a run with options. -/
def runRequest (args : List String) (withUsage : Bool) : Request :=
  match RunOptions.ofArgs args with
  | .ok options => .run options
  | .error fault => .wrongOptions fault withUsage

/-- What arguments ask for; a bytecode file in place of a command is run. -/
def Request.ofArgs : List String → Request
  | [] => .usage
  | name :: args =>
    if name = "run" then runRequest args true
    else if name = "dis" then
      match args with
      | path :: _ => .list path
      | [] => .listUsage
    else if name = "explain" || name = "--explain" then
      match args with
      | code :: _ => .explain code
      | [] => .explainUsage
    else if name = "help" || name = "--help" || name = "-h" then .usage
    else if name = "version" || name = "--version" || name = "-V" then .version
    else if isBytecodePath name then runRequest (name :: args) false
    else .unknown name

/-! ### Texts -/

def linesText (lines : List String) : String :=
  lines.foldl (fun text line => text ++ line ++ "\n") ""

def usageText : String := linesText
  [ "Quill bytecode tools",
    "",
    "Usage: quill <command> [options]",
    "",
    "Commands:",
    "  run <file.qbc>       Run a compiled program",
    "  dis <file.qbc>       Print the assembly listing of a compiled program",
    "  explain <code>       Explain a diagnostic code (e.g., E2008)",
    "  help                 Show this help message",
    "  version              Show version information",
    "",
    "Run options:",
    "  --step-limit <n>     Abort after n executed instructions",
    "  --profile-labels     Print label hit counts to stderr",
    "",
    "Set RUST_LOG (e.g. RUST_LOG=quill_vm=trace) for debug output." ]

def versionText : String := "Quill 0.1.0\n"

def runUsage : String := "Usage: quill run <file.qbc> [--step-limit N] [--profile-labels]"

/-- What the program writes and the code it ends with. -/
structure Reply where
  code : Nat
  stdout : String
  stderr : String
  deriving DecidableEq, Repr, Inhabited

namespace Reply

def success (text : String) : Reply := ⟨0, text, ""⟩

/-- Failure with lines on the error stream. -/
def failure (lines : List String) : Reply := ⟨1, "", linesText lines⟩

end Reply

/-- The explanation of a report code. -/
def explanation (code : String) : Reply :=
  match Report.Code.ofText? code with
  | some c => .success s!"{c.text}: {c.description}\n"
  | none => .failure
    [ s!"Unknown error code: {code}", "",
      "Codes have the format EXXXX where X is a digit.",
      "Examples: E1001, E2001, E5001" ]

/-! ### Files -/

/-- The image of a bytecode file, given how files are read; a fault of the file itself is told by
its text. -/
def load (read : String → Except String Wire.Bytes) (path : String) : Except Reply Image :=
  let loaded := match read path with
    | .ok bytes => Wire.decode bytes
    | .error message => .error (.io message)
  match loaded with
  | .ok image => .ok image
  | .error fault => .error (.failure [s!"error: cannot load '{path}': {fault.message}"])

def listing (read : String → Except String Wire.Bytes) (path : String) : Reply :=
  match load read path with
  | .ok image => .success image.listing
  | .error reply => reply

/-- The reply to a request; `none` for a run with a path, which needs the machine. -/
def Request.reply (read : String → Except String Wire.Bytes) : Request → Option Reply
  | .usage => some (.success usageText)
  | .version => some (.success versionText)
  | .run { path := none, .. } => some (.failure ["error: missing file path", runUsage])
  | .run _ => none
  | .wrongOptions fault withUsage =>
    some (.failure (s!"error: {fault.message}" :: if withUsage then [runUsage] else []))
  | .list path => some (listing read path)
  | .listUsage => some (.failure ["Usage: quill dis <file.qbc>"])
  | .explain code => some (explanation code)
  | .explainUsage => some (.failure
      ["Usage: quill explain <ERROR_CODE>",
       s!"Example: quill explain {Report.Code.missingEntry.text}"])
  | .unknown name => some ⟨1, usageText, linesText [s!"Unknown command: {name}", ""]⟩

/-! ### Runs -/

/-- What a run from the command line needs: the standard routines and the limit of the
options. -/
def setupOf (image : Image) (options : RunOptions) : Machine.Setup :=
  { image, hosts := Machine.Hosts.standard, limit := options.limit }

/-- The lines that tell the counts of instructions and labels. -/
def profileLines (c : LabelCounter) : List String :=
  s!"{c.steps} instruction(s) executed" ::
    c.hits.map fun h => s!"  {h.method} L{h.label}: {h.count}"

/-- The code and the error text after a run. -/
def closing (path : String) (options : RunOptions) (outcome : Machine.Outcome)
    (c : LabelCounter) : Nat × String :=
  let profile := if options.profileLabels then profileLines c else []
  match outcome with
  | .ok _ => (0, linesText profile)
  | .error fault =>
    (1, linesText (profile ++ [s!"error: runtime error in '{path}': {fault.message}"]))

/-- The reply of a run of an image on a stream of input, if it ends after at most so many
instructions. -/
def runReply? (path : String) (options : RunOptions) (image : Image) (stdin : Wire.Bytes)
    (fuel : Nat) : Option Reply := do
  let (outcome, run) ← Machine.runProgram (setupOf image options) LabelCounter.observer .zero
    (Machine.Console.ofStream stdin) fuel
  let (code, stderr) := closing path options outcome run.seen
  return { code, stdout := run.state.console.output, stderr }

/-- The reply to arguments, given how files are read and the input, if it takes at most so many
instructions. -/
def respond? (read : String → Except String Wire.Bytes) (stdin : Wire.Bytes)
    (args : List String) (fuel : Nat) : Option Reply :=
  match Request.ofArgs args with
  | .run options =>
    match options.path with
    | none => (Request.run options).reply read
    | some path =>
      match load read path with
      | .error reply => some reply
      | .ok image => runReply? path options image stdin fuel
  | request => request.reply read

end Quill.Command
