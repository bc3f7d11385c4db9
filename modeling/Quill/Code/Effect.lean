import Quill.Code.Image

/-! # Stack effects

How many operands an instruction takes from the stack and how many it leaves.  The effect of a
call is that of the whole call; a return, which ends its frame, has none of its own. -/

namespace Quill.Code

/-- Operands taken and operands left. -/
structure Effect where
  pops : Nat
  pushes : Nat
  deriving DecidableEq, Repr

def Effect.delta (e : Effect) : Int := (e.pushes : Int) - e.pops

/-- The effect of an operation of the machine. -/
def Intrinsic.effect : Intrinsic → Effect
  | .print | .printLn => ⟨1, 0⟩
  | .readLn => ⟨0, 1⟩
  | .intToStr | .floatToStr | .boolToStr | .parseInt | .parseFloat | .strLen | .arrayLen =>
    ⟨1, 1⟩
  | .charAt => ⟨2, 1⟩

/-- One operand if there is a value. -/
def valueCount (isValue : Bool) : Nat := if isValue then 1 else 0

/-- The effect of an instruction in an image.  A method that does not exist leaves nothing. -/
def Instr.effect (p : Image) : Instr → Effect
  | .nop | .label _ | .jump _ => ⟨0, 0⟩
  | .pushInt _ | .pushFloat _ | .pushStr _ => ⟨0, 1⟩
  | .loadArg _ | .loadLocal _ => ⟨0, 1⟩
  | .storeArg _ | .storeLocal _ => ⟨1, 0⟩
  | .arith _ _ | .concat | .strEq => ⟨2, 1⟩
  | .intToFloat => ⟨1, 1⟩
  | .branchCmp _ _ _ => ⟨2, 0⟩
  | .branchIfTrue _ | .pop => ⟨1, 0⟩
  | .newArray _ rank => ⟨rank, 1⟩
  | .loadElem => ⟨2, 1⟩
  | .storeElem => ⟨3, 0⟩
  | .arrayGet rank => ⟨rank + 1, 1⟩
  | .arraySet rank => ⟨rank + 2, 0⟩
  | .call method argc =>
    match p.methods[method]? with
    | some m => ⟨argc, valueCount m.returnsValue⟩
    | none => ⟨argc, 0⟩
  | .callHost routine =>
    match p.hostRoutines[routine]? with
    | some h => ⟨h.arity, valueCount h.returnType.isValue⟩
    | none => ⟨0, 0⟩
  | .intrinsic i => i.effect
  | .ret => ⟨0, 0⟩

end Quill.Code
