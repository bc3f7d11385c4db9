import Quill.Text.Utf8

/-! # Binary formats

A format writes values as bytes and reads them back from the front of a list of bytes.  Numbers
have a fixed width and start with their lowest byte; sequences and texts start with their length
in eight bytes; a choice between alternatives starts with its number in four bytes, and an
optional value with a byte that is zero or one. -/

namespace Quill.Wire

abbrev Bytes := List UInt8

/-- Why bytes are no value of a format. -/
inductive Fault where
  /-- The bytes end too early. -/
  | ended
  /-- The number of an alternative is not below the count of alternatives. -/
  | alternative (number count : Nat)
  /-- The byte before an optional value is neither zero nor one. -/
  | presence (byte : Nat)
  /-- The bytes of a text are not UTF-8. -/
  | text (fault : Text.Utf8Fault)
  deriving DecidableEq, Repr

def Fault.message : Fault → String
  | .ended => "io error: failed to fill whole buffer"
  | .alternative number count =>
    s!"invalid value: integer `{number}`, expected variant index 0 <= i < {count}"
  | .presence byte => s!"tag for enum is not valid, found {byte}"
  | .text fault => s!"string is not valid utf8: {fault.message}"

/-- A way to write values, and to read one and tell the bytes after it. -/
structure Format (α : Type) where
  write : α → Bytes
  read : Bytes → Except Fault (α × Bytes)

/-! ### Numbers -/

/-- A number in so many bytes, the lowest first. -/
def numberBytes : Nat → Nat → Bytes
  | 0, _ => []
  | n + 1, v => (v % 256).toUInt8 :: numberBytes n (v / 256)

/-- The number that the first bytes spell. -/
def readNumber : Nat → Bytes → Except Fault (Nat × Bytes)
  | 0, bs => .ok (0, bs)
  | _ + 1, [] => .error .ended
  | n + 1, b :: bs => do
    let (v, rest) ← readNumber n bs
    return (b.toNat + 256 * v, rest)

namespace Format

/-- Numbers of a fixed width in bytes. -/
def number (width : Nat) : Format Nat := ⟨numberBytes width, readNumber width⟩

/-- Numbers in one, two, four and eight bytes. -/
def u8 : Format Nat := number 1
def u16 : Format Nat := number 2
def u32 : Format Nat := number 4
def u64 : Format Nat := number 8

/-- Values that are kept as values of another type. -/
def map (f : Format α) (toFormat : β → α) (ofFormat : α → β) : Format β where
  write b := f.write (toFormat b)
  read bs := do
    let (a, rest) ← f.read bs
    return (ofFormat a, rest)

/-- Words of 64 bits, without and with sign. -/
def word : Format UInt64 := u64.map UInt64.toNat Nat.toUInt64
def int : Format Int64 := word.map Int64.toUInt64 UInt64.toInt64

/-! ### Composite values -/

/-- The so many values at the front, after those already read, the last first. -/
def readMany (read : Bytes → Except Fault (α × Bytes)) :
    Nat → List α → Bytes → Except Fault (List α × Bytes)
  | 0, done, bs => .ok (done.reverse, bs)
  | n + 1, done, bs => do
    let (a, rest) ← read bs
    readMany read n (a :: done) rest

/-- Sequences, with their length in front. -/
def sequence (f : Format α) : Format (List α) where
  write as := u64.write as.length ++ as.flatMap f.write
  read bs := do
    let (n, rest) ← u64.read bs
    readMany f.read n [] rest

/-- Arrays are written like lists. -/
def array (f : Format α) : Format (Array α) := (sequence f).map Array.toList List.toArray

def readBytes (n : Nat) (bs : Bytes) : Except Fault (Bytes × Bytes) :=
  let front := bs.take n
  if front.length = n then .ok (front, bs.drop n) else .error .ended

/-- Texts in UTF-8, with their length in bytes in front. -/
def text : Format String where
  write s := u64.write (Text.toBytes s).length ++ Text.toBytes s
  read bs := do
    let (n, rest) ← u64.read bs
    let (bytes, rest) ← readBytes n rest
    match Text.ofBytes bytes with
    | .ok s => return (s, rest)
    | .error fault => throw (.text fault)

/-- Optional values. -/
def optional (f : Format α) : Format (Option α) where
  write
    | none => u8.write 0
    | some a => u8.write 1 ++ f.write a
  read bs := do
    let (byte, rest) ← u8.read bs
    match byte with
    | 0 => return (none, rest)
    | 1 =>
      let (a, rest) ← f.read rest
      return (some a, rest)
    | byte => throw (.presence byte)

/-- One of a list of values, by its place in the list. -/
def choice [DecidableEq α] (all : List α) : Format α where
  write a := u32.write (all.idxOf a)
  read bs := do
    let (number, rest) ← u32.read bs
    match all[number]? with
    | some a => return (a, rest)
    | none => throw (.alternative number all.length)

end Format

end Quill.Wire
