import Quill.Code.Image
import Quill.Machine.Value

/-! # Host routines

The routines that the surroundings of a program provide.  A routine is found by its package, its
name and the types of its parameters; a later registration replaces an earlier one.  A routine
sees the arrays that its arguments refer to, can change them and make new ones. -/

namespace Quill.Machine

/-- What a routine does with its arguments and the arrays of the program: its result, which may
be no value, and the arrays after it. -/
abbrev HostAction := List Value → Arrays → Except Fault (Option Value × Arrays)

structure HostKey where
  package : String
  name : String
  params : List Ty
  deriving DecidableEq, Repr

abbrev Hosts := List (HostKey × HostAction)

namespace Hosts

/-- The routines with one more, or with one replaced. -/
def register (h : Hosts) (key : HostKey) (action : HostAction) : Hosts :=
  (key, action) :: h.filter (·.1 ≠ key)

/-- The routine that an image names. -/
def find? (h : Hosts) (r : Code.HostRoutine) : Option HostAction :=
  h.lookup { package := r.package, name := r.name, params := r.params }

end Hosts

/-- The absolute value of an integer; that of the least one is itself. -/
def absInt (n : Int64) : Int64 := if n < 0 then -n else n

def integerAction (f : Int64 → Int64) : HostAction
  | v :: _, as => do return (some (.int (f (← v.asInt))), as)
  | [], as => .ok (none, as)

/-- A routine of one floating-point number. -/
def floatAction (f : Float → Float) : HostAction
  | v :: _, as => do return (some (.float (f (← v.asFloat))), as)
  | [], as => .ok (none, as)

/-- A routine of two floating-point numbers. -/
def floatAction₂ (f : Float → Float → Float) : HostAction
  | v :: w :: _, as => do
    let x ← v.asFloat
    let y ← w.asFloat
    return (some (.float (f x y)), as)
  | _, as => .ok (none, as)

/-- The routines that every command-line run has. -/
def Hosts.standard : Hosts :=
  [ (⟨"math", "abs", [.integer]⟩, integerAction absInt),
    (⟨"math", "abs", [.float]⟩, floatAction Float.abs),
    (⟨"math", "sqrt", [.float]⟩, floatAction Float.sqrt),
    (⟨"math", "pow", [.float, .float]⟩, floatAction₂ Float.pow) ]

end Quill.Machine
