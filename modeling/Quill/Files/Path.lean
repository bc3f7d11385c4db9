import Quill.Text.Pieces

/-! # Paths

The way that a path takes through directories: one step per part between slashes, from the
working directory or, after a leading slash, from the root.  A step enters a directory by its
name, stays (`.`) or goes up (`..`). -/

namespace Quill

/-- Why a path cannot be read or written. -/
inductive FileFault where
  | notFound
  | notDirectory
  | isDirectory
  | nameTooLong
  /-- The path holds the character that ends a name. -/
  | nulInName
  deriving DecidableEq, Repr

def FileFault.message : FileFault → String
  | .notFound => "No such file or directory (os error 2)"
  | .notDirectory => "Not a directory (os error 20)"
  | .isDirectory => "Is a directory (os error 21)"
  | .nameTooLong => "File name too long (os error 36)"
  | .nulInName => "file name contained an unexpected NUL byte"

namespace Files

/-- Where the names of a place start. -/
inductive Base where
  /-- The directory that many levels above the working directory. -/
  | above (levels : Nat)
  | root
  deriving DecidableEq, Repr

/-- A place in the tree of directories: the names that lead to it from its base, the last
first. -/
structure Place where
  base : Base
  names : List String
  deriving DecidableEq, Repr

namespace Place

def working : Place := ⟨.above 0, []⟩

def root : Place := ⟨.root, []⟩

/-- The directory that holds a place; the root holds itself. -/
def parent (p : Place) : Place :=
  match p.names, p.base with
  | _ :: names, _ => { p with names }
  | [], .above levels => { p with base := .above (levels + 1) }
  | [], .root => p

/-- The place of a name in a directory. -/
def child (p : Place) (name : String) : Place := { p with names := name :: p.names }

/-- The place lies below the directory. -/
def isBelow (p directory : Place) : Bool :=
  p.base = directory.base && directory.names.length < p.names.length &&
    directory.names.isSuffixOf p.names

@[simp]
theorem parent_child (p : Place) (name : String) : (p.child name).parent = p := rfl

end Place

inductive Step where
  | stay
  | up
  | enter (name : String)
  deriving DecidableEq, Repr

/-- The step that a part of a path spells. -/
def Step.ofPart (part : String) : Step :=
  if part = "." then .stay else if part = ".." then .up else .enter part

def Place.step (p : Place) : Step → Place
  | .stay => p
  | .up => p.parent
  | .enter name => p.child name

/-- A path: where it starts, its steps, and whether a slash follows the last. -/
structure Path where
  start : Place
  steps : List Step
  slashAtEnd : Bool
  deriving DecidableEq, Repr

namespace Path

/-- The path that a text spells; parts without a character are no steps. -/
def ofText (text : String) : Path :=
  { start := if text.toList.head? = some '/' then .root else .working
    steps := ((Text.pieces '/' text).filter (· ≠ "")).map Step.ofPart
    slashAtEnd := text.toList.getLast? = some '/' }

/-- The place of a path whose directories all exist. -/
def place (p : Path) : Place := p.steps.foldl Place.step p.start

end Path

/-- A path has fewer bytes than this. -/
def pathLimit : Nat := 4096

/-- A name has at most so many bytes. -/
def nameLimit : Nat := 255

/-- The path that a text spells, if it can spell one at all. -/
def Path.ofText? (text : String) : Except FileFault Path :=
  if text.toList.contains '\x00' then .error .nulInName
  else if text = "" then .error .notFound
  else if pathLimit ≤ text.utf8ByteSize then .error .nameTooLong
  else .ok (.ofText text)

end Files

end Quill
