/-! # UTF-8

`ofBytes` decodes a list of bytes; on failure it tells the index of the first byte that starts no
character, and how many bytes there form a wrong sequence, or that the text ends in the middle of
a character. -/

namespace Quill.Text

structure Utf8Fault where
  /-- The number of bytes before the fault, which are valid. -/
  index : Nat
  /-- The number of wrong bytes; `none` if the input ends inside a character. -/
  wrong : Option Nat
  deriving DecidableEq, Repr

def Utf8Fault.message (f : Utf8Fault) : String :=
  match f.wrong with
  | some k => s!"invalid utf-8 sequence of {k} bytes from index {f.index}"
  | none => s!"incomplete utf-8 byte sequence from index {f.index}"

/-- The range of the second byte after a first byte of a character of three or four bytes. -/
def secondRange (first : UInt8) : UInt8 × UInt8 :=
  if first == 0xE0 then (0xA0, 0xBF)
  else if first == 0xED then (0x80, 0x9F)
  else if first == 0xF0 then (0x90, 0xBF)
  else if first == 0xF4 then (0x80, 0x8F)
  else (0x80, 0xBF)

/-- The number of bytes of the character that a first byte starts, zero if it starts none. -/
def charWidth (first : UInt8) : Nat :=
  if first ≤ 0x7F then 1
  else if 0xC2 ≤ first && first ≤ 0xDF then 2
  else if 0xE0 ≤ first && first ≤ 0xEF then 3
  else if 0xF0 ≤ first && first ≤ 0xF4 then 4
  else 0

/-- The number of wrong bytes among the bytes after the first one, given how many must follow
and how many are already read; `none` if all are right, `some none` if they end too early. -/
def tailFault (low high : UInt8) : Nat → Nat → List UInt8 → Option (Option Nat)
  | 0, _, _ => none
  | _ + 1, _, [] => some none
  | n + 1, read, b :: rest =>
    if low ≤ b && b ≤ high then tailFault 0x80 0xBF n (read + 1) rest else some (some read)

/-- The first fault of a list of bytes, from an index on.  The fuel is the number of bytes. -/
def utf8Fault (index : Nat) : Nat → List UInt8 → Option Utf8Fault
  | 0, _ | _, [] => none
  | fuel + 1, first :: rest =>
    let width := charWidth first
    if width = 0 then some ⟨index, some 1⟩
    else
      let (low, high) := secondRange first
      match tailFault low high (width - 1) 1 rest with
      | some wrong => some ⟨index, wrong⟩
      | none => utf8Fault (index + width) fuel (rest.drop (width - 1))

def ofBytes (bytes : List UInt8) : Except Utf8Fault String :=
  match String.fromUTF8? (ByteArray.mk bytes.toArray) with
  | some s => .ok s
  | none => .error ((utf8Fault 0 bytes.length bytes).getD ⟨0, none⟩)

def toBytes (s : String) : List UInt8 := s.toUTF8.data.toList

end Quill.Text
