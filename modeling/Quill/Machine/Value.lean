import Quill.Decimal.Layout
import Quill.Decimal.Whole
import Quill.Machine.Fault

/-! # Values and arrays

A value is an integer, a floating-point number, a text, or a reference to an array; Booleans are
the integers zero and one.  Arrays keep their elements in row-major order: the last index varies
fastest.

An array that was made has a place on the heap.  The array that a variable starts with has no
elements, so it never changes and needs no place: its reference says all about it, and a number
tells it apart from others of its type. -/

namespace Quill.Machine

inductive Ref where
  /-- An array that was made, by its place on the heap. -/
  | made (place : Nat)
  /-- An array that a variable starts with; every dimension of it is zero. -/
  | empty (element : Element) (rank id : Nat)
  deriving DecidableEq, Repr, Inhabited

inductive Value where
  | int (value : Int64)
  | float (value : Float)
  | str (value : String)
  | array (ref : Ref)
  deriving Repr, Inhabited

namespace Value

def ofBool (b : Bool) : Value := .int (if b then 1 else 0)

def kind : Value → Kind
  | .int _ => .integer
  | .float _ => .float
  | .str _ => .string
  | .array _ => .array

def asInt : Value → Except Fault Int64
  | .int v => .ok v
  | other => .error (.typeMismatch .integer other.kind)

/-- The floating-point number that a value is. -/
def asFloat : Value → Except Fault Float
  | .float v => .ok v
  | other => .error (.typeMismatch .float other.kind)

def asStr : Value → Except Fault String
  | .str v => .ok v
  | other => .error (.typeMismatch .string other.kind)

def asArray : Value → Except Fault Ref
  | .array ref => .ok ref
  | other => .error (.typeMismatch .array other.kind)

/-- The integers that values are; the first that is none is a fault. -/
def asInts : List Value → Except Fault (List Int64)
  | [] => .ok []
  | v :: vs => do return (← v.asInt) :: (← asInts vs)

/-- Equality of values: numbers by value, so that no NaN equals itself, texts by content, arrays
by identity. -/
def same : Value → Value → Bool
  | .int a, .int b => a == b
  | .float a, .float b => a == b
  | .str a, .str b => a == b
  | .array a, .array b => a == b
  | _, _ => false

end Value

/-! ### Arrays -/

/-- An array: the type of its elements, its dimensions, and the elements in row-major order. -/
structure ArrayValue where
  element : Element
  dims : List Nat
  data : Array Value
  deriving Repr, Inhabited

def defaultElement : Element → Value
  | .float => .float 0.0
  | .string => .str ""
  | .integer | .boolean => .int 0

/-- Lengths are words of 64 bits. -/
def lengthLimit : Nat := UInt64.size

/-- The dimensions as lengths and their product, which starts with the one given.  A negative
dimension, and one with which the product no longer is a length, are faults. -/
def dimensions (total : Nat) (done : List Nat) : List Int64 → Except Fault (List Nat × Nat)
  | [] => .ok (done.reverse, total)
  | dim :: rest =>
    if dim < 0 then .error (.invalidDimension dim)
    else
      let size := dim.toInt.toNat
      if total * size < lengthLimit then dimensions (total * size) (size :: done) rest
      else .error (.invalidDimension dim)

namespace ArrayValue

/-- A new array with initial elements. -/
def new (element : Element) (dims : List Int64) : Except Fault ArrayValue := do
  let (sizes, total) ← dimensions 1 [] dims
  return { element, dims := sizes, data := Array.replicate total (defaultElement element) }

def length (a : ArrayValue) : Nat := a.data.size

/-- The row-major position of an element, from the position of its row on. -/
def offsetFrom (row : Nat) : List Int64 → List Nat → Except Fault Nat
  | index :: indices, size :: sizes =>
    if 0 ≤ index ∧ index.toInt.toNat < size then
      offsetFrom (row * size + index.toInt.toNat) indices sizes
    else .error (.indexOutOfBounds index size)
  | _, _ => .ok row

/-- The position of an element among the elements of the array. -/
def offset (a : ArrayValue) (indices : List Int64) : Except Fault Nat :=
  if indices.length ≠ a.dims.length then
    .error (.invalidProgram (.indexCount indices.length a.dims.length))
  else offsetFrom 0 indices a.dims

def get (a : ArrayValue) (indices : List Int64) : Except Fault Value := do
  let i ← a.offset indices
  match a.data[i]? with
  | some v => return v
  | none => throw (.missingElement i a.length)

/-- The position at which an element can be set. -/
def place (a : ArrayValue) (indices : List Int64) : Except Fault Nat := do
  let i ← a.offset indices
  if i < a.length then return i else throw (.missingElement i a.length)

/-- The array with the element at some indices replaced. -/
def set (a : ArrayValue) (indices : List Int64) (v : Value) : Except Fault ArrayValue := do
  let i ← a.place indices
  return { a with data := a.data.setIfInBounds i v }

/-- The text of an array: its element type and its dimensions. -/
def text (a : ArrayValue) : String :=
  a.element.name ++ "[" ++ ",".intercalate (a.dims.map Decimal.ofNat) ++ "]"

end ArrayValue

/-! ### The heap -/

/-- The array that a variable starts with. -/
def ArrayValue.empty (element : Element) (rank : Nat) : ArrayValue :=
  { element, dims := List.replicate rank 0, data := #[] }

/-- The arrays that were made, by their place. -/
abbrev Arrays := Array ArrayValue

namespace Arrays

/-- The array that a reference means; a reference to no array is a fault. -/
def find (as : Arrays) : Ref → Except Fault ArrayValue
  | .made place =>
    match as[place]? with
    | some a => .ok a
    | none => .error (.missingElement place as.size)
  | .empty element rank _ => .ok (.empty element rank)

/-- The arrays with the element at a position of one of them replaced.  An array without elements
has no position to replace at. -/
def replace (as : Arrays) (ref : Ref) (i : Nat) (v : Value) : Arrays :=
  match ref with
  | .made place => as.modify place fun a => { a with data := a.data.setIfInBounds i v }
  | .empty _ _ _ => as

end Arrays

/-- The arrays that were made, and the number of those that variables started with. -/
structure Heap where
  arrays : Arrays
  empties : Nat
  deriving Inhabited

namespace Heap

def bare : Heap := ⟨#[], 0⟩

/-- The heap with one more array, and a reference to it. -/
def alloc : Heap → ArrayValue → Value × Heap
  | ⟨arrays, empties⟩, a => (.array (.made arrays.size), ⟨arrays.push a, empties⟩)

/-- The initial value of a variable; an array variable starts with an array of its own in which
every dimension is zero. -/
def initial (h : Heap) : Ty → Value × Heap
  | .float => (.float 0.0, h)
  | .string => (.str "", h)
  | .array element rank =>
    (.array (.empty element rank h.empties), { h with empties := h.empties + 1 })
  | .integer | .boolean | .void | .undefined => (.int 0, h)

end Heap

/-- Numbers of a program's output have no exponent, and whole ones no fraction. -/
def numberText : Decimal.Layout := { positional := none, keepsFraction := false }

/-- The text of a floating-point number. -/
def floatText (x : Float) : String := numberText.ofBits x.toBits

def Value.text (as : Arrays) : Value → String
  | .int v => Decimal.ofInt v.toInt
  | .float v => floatText v
  | .str s => s
  | .array ref =>
    match as.find ref with
    | .ok a => a.text
    | .error _ => ""

end Quill.Machine
