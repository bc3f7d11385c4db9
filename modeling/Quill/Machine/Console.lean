import Quill.Text.Utf8

/-! # Consoles

A console is where a program reads lines and writes text.  Here it is a value: the lines that
remain to be read, the text written so far, and the fault of a console that does not work. -/

namespace Quill.Machine

/-- A console.  A line that cannot be read is given by the text of its fault. -/
structure Console where
  input : List (Except String String)
  output : String
  fault : Option String
  deriving Inhabited

namespace Console

/-- A console with lines to read. -/
def ofLines (lines : List String) : Console := ⟨lines.map .ok, "", none⟩

/-- A console of which every use fails. -/
def broken (fault : String) : Console := ⟨[], "", some fault⟩

/-- The console with a text added to what is written. -/
def write : Console → String → Console
  | ⟨input, output, fault⟩, text => ⟨input, output ++ text, fault⟩

/-- The console with a text and a line break added to what is written. -/
def writeLine (c : Console) (text : String) : Console := (c.write text).write "\n"

/-- The console after writing a text. -/
def print (c : Console) (text : String) : Except String Console :=
  match c.fault with
  | some fault => .error fault
  | none => .ok (c.write text)

/-- The console after writing a text and a line break. -/
def printLine (c : Console) (text : String) : Except String Console :=
  match c.fault with
  | some fault => .error fault
  | none => .ok (c.writeLine text)

/-- The next line, if there is one, and the console after reading it. -/
def readLine (c : Console) : Except String (Option String × Console) :=
  match c.fault with
  | some fault => .error fault
  | none =>
    match c.input with
    | [] => .ok (none, c)
    | .ok line :: rest => .ok (some line, { c with input := rest })
    | .error fault :: _ => .error fault

/-- The console with no text written. -/
def clear (c : Console) : Console := { c with output := "" }

end Console

/-! ### Lines of an input stream -/

/-- The pieces of a stream of bytes, each with the line feed that ends it, after those already
found; `piece` holds the bytes since the last line feed, the last first. -/
def splitLines (done : List (List UInt8)) (piece : List UInt8) : List UInt8 → List (List UInt8)
  | [] => (if piece.isEmpty then done else piece.reverse :: done).reverse
  | b :: rest =>
    if b == 0x0A then splitLines ((b :: piece).reverse :: done) [] rest
    else splitLines done (b :: piece) rest

/-- A line without its line feed and the carriage return before it. -/
def withoutLineEnd (line : String) : String :=
  match line.toList.reverse with
  | '\n' :: '\r' :: rest => String.ofList rest.reverse
  | '\n' :: rest => String.ofList rest.reverse
  | _ => line

/-- What is said of a line that is not UTF-8. -/
def unreadableLine : String := "stream did not contain valid UTF-8"

def lineOfBytes (bytes : List UInt8) : Except String String :=
  match Text.ofBytes bytes with
  | .ok line => .ok (withoutLineEnd line)
  | .error _ => .error unreadableLine

/-- A console that reads a stream of bytes. -/
def Console.ofStream (bytes : List UInt8) : Console :=
  ⟨(splitLines [] [] bytes).map lineOfBytes, "", none⟩

end Quill.Machine
