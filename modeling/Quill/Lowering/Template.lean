import Quill.Code.Instr
import Quill.Lowering.Fault

/-! # Code of the built-in functions

The built-in functions have no method; a call becomes the operations given here, after the code
of the arguments.  Which operations those are can depend on the type of the argument. -/

namespace Quill.Lowering

open Code

/-- The code that makes a text of a value; a text already is one. -/
def textTemplate : Ty → Except Fault (List Instr)
  | .integer => .ok [.intrinsic .intToStr]
  | .float => .ok [.intrinsic .floatToStr]
  | .boolean => .ok [.intrinsic .boolToStr]
  | .string => .ok []
  | other => .error (.unsupportedOperand "tostr" other)

/-- The code that takes the length of a value. -/
def lengthTemplate : Ty → Except Fault (List Instr)
  | .string => .ok [.intrinsic .strLen]
  | .array _ _ => .ok [.intrinsic .arrayLen]
  | other => .error (.unsupportedOperand "length" other)

/-- The code of a call of a built-in function; `none` if there is none with this name and number
of arguments. -/
def template? (name : String) (args : List Ty) : Option (Except Fault (List Instr)) :=
  match args with
  | [] => if name = "readln" then some (.ok [.intrinsic .readLn]) else none
  | [t] =>
    if name = "print" then some (.ok [.intrinsic .print])
    else if name = "println" then some (.ok [.intrinsic .printLn])
    else if name = "toint" then some (.ok [.intrinsic .parseInt])
    else if name = "tofloat" then some (.ok [.intrinsic .parseFloat])
    else if name = "tostr" then some (textTemplate t)
    else if name = "length" then some (lengthTemplate t)
    else none
  | _ => none

/-- A call of the built-in function leaves a value. -/
def builtinReturnsValue (name : String) : Bool := name != "print" && name != "println"

end Quill.Lowering
