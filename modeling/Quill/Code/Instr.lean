import Quill.Operator

/-! # Instructions

The instructions of the stack machine.  Labels are markers in the code, numbered per method;
strings, methods and host routines are named by their place in the tables of an image.  Booleans
are the integers zero and one. -/

namespace Quill.Code

/-- The operations that every machine provides. -/
inductive Intrinsic where
  | print
  | printLn
  | readLn
  | intToStr
  | floatToStr
  | boolToStr
  | parseInt
  | parseFloat
  | strLen
  | arrayLen
  | charAt
  deriving DecidableEq, Repr, Inhabited

inductive Instr where
  | nop
  /-- The position that branches to the label go to. -/
  | label (label : Nat)
  | pushInt (value : Int64)
  /-- A floating-point number, by its 64 bits. -/
  | pushFloat (bits : UInt64)
  | pushStr (string : Nat)
  | loadArg (slot : Nat)
  | storeArg (slot : Nat)
  | loadLocal (slot : Nat)
  | storeLocal (slot : Nat)
  | arith (op : ArithOp) (ty : Numeric)
  | intToFloat
  | concat
  | strEq
  | branchCmp (cond : Comparison) (ty : Numeric) (target : Nat)
  | branchIfTrue (target : Nat)
  | jump (target : Nat)
  | newArray (element : Element) (rank : Nat)
  | loadElem
  | storeElem
  | arrayGet (rank : Nat)
  | arraySet (rank : Nat)
  | call (method : Nat) (argc : Nat)
  | callHost (routine : Nat)
  | intrinsic (operation : Intrinsic)
  | pop
  | ret
  deriving DecidableEq, Repr, Inhabited

/-- The label that an instruction may continue at. -/
def Instr.target? : Instr → Option Nat
  | .branchCmp _ _ target | .branchIfTrue target | .jump target => some target
  | _ => none

end Quill.Code
