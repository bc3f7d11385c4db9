import Quill.Code.Image
import Quill.Decimal.Layout
import Quill.Decimal.Whole
import Quill.Text.Quoted
import Quill.Ty.Name

/-! # Assembly listings

The text of instructions and of whole images, for human readers.  Each instruction stands on a
line of its own, indented, and label markers stand at the left margin. -/

namespace Quill.Code

/-- Floating-point operands always show that they are one: whole numbers keep a fraction of zero
below `10 ^ 16`, and very large and very small ones have an exponent. -/
def floatOperand : Decimal.Layout := { positional := some (-3, 16), keepsFraction := true }

/-- The letter of a number type in a mnemonic. -/
def numericSuffix : Numeric → String
  | .integer => "i"
  | .float => "f"

/-- The mnemonic of an arithmetic operation. -/
def arithMnemonic : ArithOp → String
  | .add => "add"
  | .sub => "sub"
  | .mul => "mul"
  | .div => "div"

def condMnemonic : Comparison → String
  | .lt => "lt"
  | .gt => "gt"
  | .le => "le"
  | .ge => "ge"
  | .eq => "eq"
  | .ne => "ne"

/-- The text of an operation of the machine. -/
def Intrinsic.text : Intrinsic → String
  | .print => "sys.print"
  | .printLn => "sys.println"
  | .readLn => "sys.readln"
  | .intToStr => "sys.itos"
  | .floatToStr => "sys.ftos"
  | .boolToStr => "sys.btos"
  | .parseInt => "sys.stoi"
  | .parseFloat => "sys.stof"
  | .strLen => "sys.strlen"
  | .arrayLen => "sys.arrlen"
  | .charAt => "sys.charat"

def Instr.text : Instr → String
  | .nop => "nop"
  | .label l => s!"L{l}:"
  | .pushInt v => "push.i " ++ Decimal.ofInt v.toInt
  | .pushFloat bits => "push.f " ++ floatOperand.ofBits bits
  | .pushStr s => s!"push.s #{s}"
  | .loadArg slot => s!"ldarg {slot}"
  | .storeArg slot => s!"starg {slot}"
  | .loadLocal slot => s!"ldloc {slot}"
  | .storeLocal slot => s!"stloc {slot}"
  | .arith op ty => arithMnemonic op ++ "." ++ numericSuffix ty
  | .intToFloat => "conv.f"
  | .concat => "concat"
  | .strEq => "streq"
  | .branchCmp cond ty target => s!"b{condMnemonic cond}.{numericSuffix ty} L{target}"
  | .branchIfTrue target => s!"brtrue L{target}"
  | .jump target => s!"jmp L{target}"
  | .newArray element rank => s!"newarr {element.name} {rank}"
  | .loadElem => "ldelem"
  | .storeElem => "stelem"
  | .arrayGet rank => s!"arrget {rank}"
  | .arraySet rank => s!"arrset {rank}"
  | .call method argc => s!"call m{method} {argc}"
  | .callHost routine => s!"callhost h{routine}"
  | .intrinsic i => i.text
  | .pop => "pop"
  | .ret => "ret"

def Instr.line (i : Instr) : String :=
  match i with
  | .label _ => i.text
  | _ => "    " ++ i.text

def typeList (ts : List Ty) : String := ", ".intercalate (ts.map Ty.name)

def stringLines (strings : Array String) : List String :=
  if strings.isEmpty then []
  else ".strings" :: (strings.toList.zipIdx.map fun (s, i) => s!"  #{i} {Text.quoted s}") ++ [""]

def hostLines (routines : Array HostRoutine) : List String :=
  if routines.isEmpty then []
  else (routines.toList.zipIdx.map fun (h, i) =>
    s!".host h{i} {h.qualifiedName}({typeList h.params}): {h.returnType.name}") ++ [""]

def codeLines (code : Array Instr) : List String := code.toList.map Instr.line

def methodLines (entry : Option Nat) (m : Method) (id : Nat) : List String :=
  let mark := if entry = some id then " .entry" else ""
  let head := s!".method m{id} {m.name}({typeList m.params}): {m.returnType.name}{mark}"
  match m.host with
  | some h => [head, s!"  .extern h{h}", ""]
  | none =>
    head :: (m.locals.toList.zipIdx.map fun (l, slot) => s!"  .local {slot} {l.name}: {l.ty.name}")
      ++ codeLines m.code ++ [""]

def Image.lines (p : Image) : List String :=
  stringLines p.strings ++ hostLines p.hostRoutines ++
    (p.methods.toList.zipIdx.flatMap fun (m, id) => methodLines p.entry m id)

def Image.listing (p : Image) : String :=
  p.lines.foldl (fun text line => text ++ line ++ "\n") ""

end Quill.Code
