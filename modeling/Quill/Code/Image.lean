import Quill.Code.Instr

/-! # Images

An image is a compiled program: methods, a pool of strings, the host routines that the methods
use, and the method to start with.  A method that stands for a host routine has no code. -/

namespace Quill.Code

structure Local where
  name : String
  ty : Ty
  deriving DecidableEq, Repr, Inhabited

/-- A method.  The label table gives the position of each label's marker in the code. -/
structure Method where
  name : String
  params : List Ty
  returnType : Ty
  locals : Array Local
  code : Array Instr
  labels : Array Nat
  host : Option Nat
  deriving DecidableEq, Repr, Inhabited

namespace Method

def arity (m : Method) : Nat := m.params.length

/-- Calls of the method leave a value. -/
def returnsValue (m : Method) : Bool := m.returnType.isValue

def position? (m : Method) (label : Nat) : Option Nat := m.labels[label]?

/-- The method has this name and number of arguments. -/
def hasSignature (m : Method) (name : String) (arity : Nat) : Bool :=
  m.name = name ∧ m.arity = arity

end Method

/-- A routine that the host provides. -/
structure HostRoutine where
  package : String
  name : String
  params : List Ty
  returnType : Ty
  deriving DecidableEq, Repr, Inhabited

namespace HostRoutine

def arity (h : HostRoutine) : Nat := h.params.length

def qualifiedName (h : HostRoutine) : String := s!"{h.package}.{h.name}"

end HostRoutine

/-- A compiled program. -/
structure Image where
  methods : Array Method
  strings : Array String
  hostRoutines : Array HostRoutine
  entry : Option Nat
  deriving DecidableEq, Repr, Inhabited

namespace Image

/-- The first method with a name and a number of arguments. -/
def findMethod? (p : Image) (name : String) (arity : Nat) : Option Nat :=
  p.methods.findIdx? (·.hasSignature name arity)

def entryMethod? (p : Image) : Option Method := p.entry.bind (p.methods[·]?)

end Image

end Quill.Code
