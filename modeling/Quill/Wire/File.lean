import Quill.Wire.Image

/-! # Bytecode files

A bytecode file starts with three bytes that name its format and with the version of the format;
an image follows.  Bytes after the image are ignored. -/

namespace Quill.Wire

open Code (Image)

/-- The first bytes of every bytecode file. -/
def magic : Bytes := [0x51, 0x42, 0x43]

def version : Nat := 1

/-- Why a program could not be stored or loaded. -/
inductive FileFault where
  /-- The file itself could not be used. -/
  | io (message : String)
  /-- The bytes after the header are no image. -/
  | content (fault : Fault)
  | badMagic
  | unsupportedVersion (found : Nat)
  deriving DecidableEq, Repr

def FileFault.message : FileFault → String
  | .io message => s!"i/o error: {message}"
  | .content fault => s!"bytecode encoding: {fault.message}"
  | .badMagic => "not a Quill bytecode file"
  | .unsupportedVersion found => s!"unsupported bytecode version {found} (expected {version})"

/-- What is said of a file that ends inside its header. -/
def shortHeader : FileFault := .io "failed to fill whole buffer"

/-- The bytes of a file with an image. -/
def encode (p : Image) : Bytes := magic ++ (Format.u16.write version ++ image.write p)

def decode (bs : Bytes) : Except FileFault Image :=
  match Format.readBytes magic.length bs with
  | .error _ => .error shortHeader
  | .ok (front, bs) =>
    if front ≠ magic then .error .badMagic
    else match Format.u16.read bs with
      | .error _ => .error shortHeader
      | .ok (found, bs) =>
        if found ≠ version then .error (.unsupportedVersion found)
        else match image.read bs with
          | .error fault => .error (.content fault)
          | .ok (p, _) => .ok p

end Quill.Wire
