import Quill.Files.Path
import Quill.Text.Utf8

/-! # A directory of files

The files that a compilation or a command sees, as a value: contents by place.  Directories
exist as far as files lie in them, and so do the working directory, those above it and the root.
Every directory on the way of a path must exist, also one that the path leaves again.  Faults
are told by their texts. -/

namespace Quill

/-- The files around a working directory. -/
structure Files where
  entries : List (Files.Place × List UInt8)
  deriving DecidableEq, Repr, Inhabited

namespace Files

def empty : Files := ⟨[]⟩

inductive Entry where
  | file (content : List UInt8)
  | directory
  | nothing
  deriving DecidableEq, Repr

def entry (f : Files) (p : Place) : Entry :=
  match f.entries.lookup p with
  | some content => .file content
  | none =>
    if p.names.isEmpty || f.entries.any (·.1.isBelow p) then .directory else .nothing

/-- What stands under a name in a directory. -/
def look (f : Files) (directory : Place) (name : String) : Except FileFault Entry :=
  if nameLimit < name.utf8ByteSize then .error .nameTooLong
  else .ok (f.entry (directory.child name))

/-- The directory that steps lead to, each through a directory that exists. -/
def descend (f : Files) (p : Place) : List Step → Except FileFault Place
  | [] => .ok p
  | .enter name :: rest =>
    match f.look p name with
    | .error fault => .error fault
    | .ok .directory => f.descend (p.child name) rest
    | .ok (.file _) => .error .notDirectory
    | .ok .nothing => .error .notFound
  | step :: rest => f.descend (p.step step) rest

/-- The last step of a path, taken from a directory that exists. -/
structure Goal where
  directory : Place
  last : Step
  slashAtEnd : Bool
  deriving DecidableEq, Repr

/-- The last step of the path that a text spells. -/
def goal (f : Files) (text : String) : Except FileFault Goal := do
  let path ← Path.ofText? text
  let directory ← f.descend path.start path.steps.dropLast
  return { directory, last := path.steps.getLastD .stay, slashAtEnd := path.slashAtEnd }

def read (f : Files) (text : String) : Except FileFault (List UInt8) := do
  let goal ← f.goal text
  match goal.last with
  | .stay | .up => .error .isDirectory
  | .enter name =>
    match ← f.look goal.directory name with
    | .file content => if goal.slashAtEnd then .error .notDirectory else .ok content
    | .directory => .error .isDirectory
    | .nothing => .error .notFound

/-- The files with a content at a place. -/
def insert (f : Files) (p : Place) (content : List UInt8) : Files :=
  ⟨(p, content) :: f.entries.filter (·.1 ≠ p)⟩

@[simp]
theorem entry_insert (f : Files) (p : Place) (content : List UInt8) :
    (f.insert p content).entry p = .file content := by
  simp [entry, insert]

/-- The files after writing one.  A slash at the end asks for a directory, which cannot be
written, whatever stands there. -/
def write (f : Files) (text : String) (content : List UInt8) : Except FileFault Files := do
  let goal ← f.goal text
  match goal.last with
  | .stay | .up => .error .isDirectory
  | .enter name =>
    if goal.slashAtEnd then .error .isDirectory
    else match ← f.look goal.directory name with
      | .directory => .error .isDirectory
      | .file _ | .nothing => .ok (f.insert (goal.directory.child name) content)

/-- The content of a file as a text, if it is one. -/
def readText? (f : Files) (text : String) : Option String :=
  match f.read text with
  | .ok content => (Text.ofBytes content).toOption
  | .error _ => none

/-- The files with one that is there from the start, together with its directories. -/
def withFile (f : Files) (text : String) (content : List UInt8) : Files :=
  f.insert (Path.ofText text).place content

end Files

end Quill
