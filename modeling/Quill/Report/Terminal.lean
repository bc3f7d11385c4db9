import Quill.Report.Log
import Quill.Text.Pieces

/-! # Reports on a terminal

`Terminal.emit` writes a report for a human reader: a headline, an excerpt of the source with the
place underlined, and the notes; `Terminal.summary` closes a list of reports.  Colours are
optional.  A terminal remembers each source text from its first use on, also that a text could
not be read. -/

namespace Quill.Report

/-! ### Colours -/

inductive ColorMode where
  | auto
  | always
  | never
  deriving DecidableEq, Repr, Inhabited

/-- Whether colours are used, given whether the output is a terminal. -/
def ColorMode.usesColors (m : ColorMode) (isTty : Bool) : Bool :=
  match m with
  | .auto => isTty
  | .always => true
  | .never => false

/-- The mode that an option value names. -/
def ColorMode.ofFlag? (s : String) : Option ColorMode :=
  if s = "auto" then some .auto
  else if s = "always" then some .always
  else if s = "never" then some .never
  else none

/-- The control sequences that start and end a colour. -/
inductive Color where
  | error
  | note
  | bold
  | gutter
  deriving DecidableEq, Repr

def Color.start : Color → String
  | .error => "\x1b[1;31m"
  | .note => "\x1b[1;36m"
  | .bold => "\x1b[1m"
  | .gutter => "\x1b[1;34m"

def Color.stop : String := "\x1b[0m"

/-- A text in a colour, if colours are used. -/
def paint (colors : Bool) (c : Color) (s : String) : String :=
  if colors then c.start ++ s ++ Color.stop else s

/-! ### Source texts -/

/-- What two spellings of one path have in common: whether it is absolute, and its parts, without
empty ones and without single dots except a leading one. -/
def pathKey (path : String) : Bool × List String :=
  let parts := Text.pieces '/' path
  let absolute := path.toList.head? = some '/'
  let named := fun p : String => p != "" && p != "."
  match parts with
  | "." :: rest => (absolute, "." :: rest.filter named)
  | parts => (absolute, parts.filter named)

/-- The lines of a text; a line break at the end starts no further line, and carriage returns at
the end of a line are not part of it. -/
def sourceLines (text : String) : List String :=
  let pieces := Text.pieces '\n' text
  let pieces := if pieces.getLast? = some "" then pieces.dropLast else pieces
  pieces.map fun l => String.ofList (l.toList.reverse.dropWhile (· == '\r')).reverse

/-- The line with a number counted from one. -/
def sourceLine? (text : String) (line : Nat) : Option String :=
  if line = 0 then none else (sourceLines text)[line - 1]?

/-- A terminal: whether colours are used, and the source texts seen so far. -/
structure Terminal where
  colors : Bool
  sources : List ((Bool × List String) × Option String)
  deriving Repr, Inhabited

namespace Terminal

/-- A terminal that has seen no source text. -/
def new (mode : ColorMode) (isTty : Bool) : Terminal := ⟨mode.usesColors isTty, []⟩

/-- The terminal with a source text given for a path. -/
def withSource (t : Terminal) (path text : String) : Terminal :=
  { t with sources := (pathKey path, some text) :: t.sources }

/-- The source text of a path, remembered or else read. -/
def source (t : Terminal) (read : String → Option String) (path : String) :
    Terminal × Option String :=
  let key := pathKey path
  match t.sources.lookup key with
  | some text => (t, text)
  | none =>
    let text := read path
    ({ t with sources := (key, text) :: t.sources }, text)

end Terminal

/-! ### Texts of a report -/

/-- The blanks before the underline and its width: tabs are kept, a place on several lines is
underlined to the end of its first line, and every underline has at least one mark. -/
def underline (line : String) (span : Span) : String × Nat :=
  let cs := line.toList
  let start := min (span.start.column - 1) cs.length
  let indent := (cs.take start).map fun c => if c == '\t' then '\t' else ' '
  let width :=
    if span.stop.line = span.start.line ∧ span.start.column < span.stop.column then
      span.stop.column - span.start.column
    else cs.length - start
  (String.ofList indent, max width 1)

def headline (colors : Bool) (r : Report) : String :=
  paint colors .error "error" ++ paint colors .bold s!"[{r.code.text}]: {r.message}" ++ "\n"

/-- The excerpt of the source text with the place underlined. -/
def excerpt (colors : Bool) (path : String) (span : Span) (line : String)
    (label : Option String) : String :=
  let number := toString span.start.line
  let pad := String.ofList (List.replicate number.length ' ')
  let (indent, width) := underline line span
  let marks := String.ofList (List.replicate width '^') ++
    match label with
    | some l => " " ++ l
    | none => ""
  let gutter := paint colors .gutter
  pad ++ gutter "-->" ++ s!" {path}:{span.text}\n" ++
    gutter (pad ++ " |") ++ "\n" ++
    gutter (number ++ " |") ++ s!" {line}\n" ++
    gutter (pad ++ " |") ++ s!" {indent}" ++ paint colors .error marks ++ "\n"

def noteLine (colors : Bool) (note : String) : String :=
  "  = " ++ paint colors .note "note" ++ s!": {note}\n"

namespace Terminal

/-- The excerpt that belongs to a report, empty if its place or its source is not known. -/
def place (t : Terminal) (read : String → Option String) (r : Report) : Terminal × String :=
  match r.file, r.span with
  | some path, some span =>
    let (t, text) := t.source read path
    match text.bind (sourceLine? · span.start.line) with
    | some line => (t, excerpt t.colors path span line r.label)
    | none => (t, "")
  | _, _ => (t, "")

/-- A report as written on the terminal. -/
def emit (t : Terminal) (read : String → Option String) (r : Report) : Terminal × String :=
  let (t, excerpt) := t.place read r
  let notes := r.notes.foldl (fun acc note => acc ++ noteLine t.colors note) ""
  (t, headline t.colors r ++ excerpt ++ notes ++ "\n")

/-- The closing line after a number of reports. -/
def summary (t : Terminal) (count : Nat) : String :=
  if count = 0 then ""
  else
    let head := paint t.colors .error "error"
    if count = 1 then s!"{head}: aborting due to previous error\n"
    else s!"{head}: aborting due to {count} previous error{plural count}\n"

/-- Every report of a log and the closing line. -/
def render (t : Terminal) (read : String → Option String) (l : Log) : Terminal × String :=
  let (t, text) := l.toArray.foldl
    (fun (t, text) r => let (t, more) := t.emit read r; (t, text ++ more)) (t, "")
  (t, text ++ t.summary l.size)

end Terminal

end Quill.Report
