import Quill.Code.Image
import Quill.Wire.Format

/-! # Images as bytes

The binary format of compiled programs.  The parts of a record follow each other in the order of
its fields, and every alternative has the number of its place in the list of alternatives. -/

namespace Quill.Wire

open Code

/-! ### Small enumerations -/

def element : Format Element := .choice [.integer, .float, .string, .boolean]

def numeric : Format Numeric := .choice [.integer, .float]

def arithOp : Format ArithOp := .choice [.add, .sub, .mul, .div]

def comparison : Format Comparison := .choice [.lt, .gt, .le, .ge, .eq, .ne]

def intrinsic : Format Intrinsic :=
  .choice [.print, .printLn, .readLn, .intToStr, .floatToStr, .boolToStr, .parseInt,
    .parseFloat, .strLen, .arrayLen, .charAt]

open Format (u8 u16 u32 u64 word int text)

/-! ### Types -/

def writeTy : Ty → Bytes
  | .integer => u32.write 0
  | .float => u32.write 1
  | .string => u32.write 2
  | .boolean => u32.write 3
  | .void => u32.write 4
  | .undefined => u32.write 5
  | .array e rank => u32.write 6 ++ element.write e ++ u8.write rank

def readTy (bs : Bytes) : Except Fault (Ty × Bytes) := do
  let (number, bs) ← u32.read bs
  match number with
  | 0 => return (.integer, bs)
  | 1 => return (.float, bs)
  | 2 => return (.string, bs)
  | 3 => return (.boolean, bs)
  | 4 => return (.void, bs)
  | 5 => return (.undefined, bs)
  | 6 =>
    let (e, bs) ← element.read bs
    let (rank, bs) ← u8.read bs
    return (.array e rank, bs)
  | number => throw (.alternative number 7)

def ty : Format Ty := ⟨writeTy, readTy⟩

/-! ### Instructions -/

def writeInstr : Instr → Bytes
  | .nop => u32.write 0
  | .label l => u32.write 1 ++ u32.write l
  | .pushInt v => u32.write 2 ++ int.write v
  | .pushFloat bits => u32.write 3 ++ word.write bits
  | .pushStr s => u32.write 4 ++ u32.write s
  | .loadArg slot => u32.write 5 ++ u16.write slot
  | .storeArg slot => u32.write 6 ++ u16.write slot
  | .loadLocal slot => u32.write 7 ++ u16.write slot
  | .storeLocal slot => u32.write 8 ++ u16.write slot
  | .arith op t => u32.write 9 ++ arithOp.write op ++ numeric.write t
  | .intToFloat => u32.write 10
  | .concat => u32.write 11
  | .strEq => u32.write 12
  | .branchCmp cond t target =>
    u32.write 13 ++ comparison.write cond ++ numeric.write t ++ u32.write target
  | .branchIfTrue target => u32.write 14 ++ u32.write target
  | .jump target => u32.write 15 ++ u32.write target
  | .newArray e rank => u32.write 16 ++ element.write e ++ u8.write rank
  | .loadElem => u32.write 17
  | .storeElem => u32.write 18
  | .arrayGet rank => u32.write 19 ++ u8.write rank
  | .arraySet rank => u32.write 20 ++ u8.write rank
  | .call method argc => u32.write 21 ++ u32.write method ++ u16.write argc
  | .callHost routine => u32.write 22 ++ u32.write routine
  | .intrinsic i => u32.write 23 ++ intrinsic.write i
  | .pop => u32.write 24
  | .ret => u32.write 25

def readOperand (f : Format α) (make : α → Instr) (bs : Bytes) : Except Fault (Instr × Bytes) := do
  let (a, bs) ← f.read bs
  return (make a, bs)

/-- An instruction with two operands. -/
def readOperands (f : Format α) (g : Format β) (make : α → β → Instr) (bs : Bytes) :
    Except Fault (Instr × Bytes) := do
  let (a, bs) ← f.read bs
  let (b, bs) ← g.read bs
  return (make a b, bs)

def readInstr (bs : Bytes) : Except Fault (Instr × Bytes) := do
  let (number, bs) ← u32.read bs
  match number with
  | 0 => return (.nop, bs)
  | 1 => readOperand u32 .label bs
  | 2 => readOperand int .pushInt bs
  | 3 => readOperand word .pushFloat bs
  | 4 => readOperand u32 .pushStr bs
  | 5 => readOperand u16 .loadArg bs
  | 6 => readOperand u16 .storeArg bs
  | 7 => readOperand u16 .loadLocal bs
  | 8 => readOperand u16 .storeLocal bs
  | 9 => readOperands arithOp numeric .arith bs
  | 10 => return (.intToFloat, bs)
  | 11 => return (.concat, bs)
  | 12 => return (.strEq, bs)
  | 13 => do
    let (cond, bs) ← comparison.read bs
    let (t, bs) ← numeric.read bs
    let (target, bs) ← u32.read bs
    return (.branchCmp cond t target, bs)
  | 14 => readOperand u32 .branchIfTrue bs
  | 15 => readOperand u32 .jump bs
  | 16 => readOperands element u8 .newArray bs
  | 17 => return (.loadElem, bs)
  | 18 => return (.storeElem, bs)
  | 19 => readOperand u8 .arrayGet bs
  | 20 => readOperand u8 .arraySet bs
  | 21 => readOperands u32 u16 .call bs
  | 22 => readOperand u32 .callHost bs
  | 23 => readOperand intrinsic .intrinsic bs
  | 24 => return (.pop, bs)
  | 25 => return (.ret, bs)
  | number => throw (.alternative number 26)

def instr : Format Instr := ⟨writeInstr, readInstr⟩

/-! ### Methods, host routines and images -/

def localVar : Format Local where
  write l := text.write l.name ++ ty.write l.ty
  read bs := do
    let (name, bs) ← text.read bs
    let (t, bs) ← ty.read bs
    return (⟨name, t⟩, bs)

def method : Format Method where
  write m :=
    text.write m.name ++ (ty.sequence.write m.params ++ (ty.write m.returnType ++
      (localVar.array.write m.locals ++ (instr.array.write m.code ++
        (u64.array.write m.labels ++ u32.optional.write m.host)))))
  read bs := do
    let (name, bs) ← text.read bs
    let (params, bs) ← ty.sequence.read bs
    let (returnType, bs) ← ty.read bs
    let (locals, bs) ← localVar.array.read bs
    let (code, bs) ← instr.array.read bs
    let (labels, bs) ← u64.array.read bs
    let (host, bs) ← u32.optional.read bs
    return ({ name, params, returnType, locals, code, labels, host }, bs)

def hostRoutine : Format HostRoutine where
  write h :=
    text.write h.package ++ (text.write h.name ++
      (ty.sequence.write h.params ++ ty.write h.returnType))
  read bs := do
    let (package, bs) ← text.read bs
    let (name, bs) ← text.read bs
    let (params, bs) ← ty.sequence.read bs
    let (returnType, bs) ← ty.read bs
    return ({ package, name, params, returnType }, bs)

def image : Format Image where
  write p :=
    method.array.write p.methods ++ (text.array.write p.strings ++
      (hostRoutine.array.write p.hostRoutines ++ u32.optional.write p.entry))
  read bs := do
    let (methods, bs) ← method.array.read bs
    let (strings, bs) ← text.array.read bs
    let (hostRoutines, bs) ← hostRoutine.array.read bs
    let (entry, bs) ← u32.optional.read bs
    return ({ methods, strings, hostRoutines, entry }, bs)

end Quill.Wire
