import Quill.Decimal.Whole

/-! # Options of a run

The options after `run`: the path of a bytecode file, a limit on the number of instructions, and
whether label passes are counted. -/

namespace Quill.Command

structure RunOptions where
  path : Option String
  limit : Option Nat
  profileLabels : Bool
  deriving DecidableEq, Repr, Inhabited

/-- Why options cannot be understood. -/
inductive OptionFault where
  | missingValue
  | invalidLimit (value : String)
  | unknownOption (option : String)
  | unexpectedArgument (argument : String)
  deriving DecidableEq, Repr

def OptionFault.message : OptionFault → String
  | .missingValue => "--step-limit needs a value"
  | .invalidLimit value => s!"invalid step limit '{value}'"
  | .unknownOption option => s!"unknown option '{option}'"
  | .unexpectedArgument argument => s!"unexpected argument '{argument}'"

/-- A limit, an unsigned word in decimal. -/
def limitOf (value : String) : Except OptionFault Nat :=
  match Decimal.toWord? value.toList with
  | some n => .ok n
  | none => .error (.invalidLimit value)

/-- The start of an option that has its limit in the same argument. -/
def limitStart : List Char := "--step-limit=".toList

/-- The rest of a text after a start. -/
def after? : List Char → List Char → Option (List Char)
  | [], cs => some cs
  | _ :: _, [] => none
  | s :: ss, c :: cs => if s = c then after? ss cs else none

/-- The options with those of the arguments added. -/
def RunOptions.addAll (o : RunOptions) : List String → Except OptionFault RunOptions
  | [] => .ok o
  | "--step-limit" :: [] => .error .missingValue
  | "--step-limit" :: value :: rest => do
    let limit ← limitOf value
    { o with limit := some limit }.addAll rest
  | arg :: rest =>
    match after? limitStart arg.toList with
    | some value => do
      let limit ← limitOf (String.ofList value)
      { o with limit := some limit }.addAll rest
    | none =>
      if arg = "--profile-labels" then { o with profileLabels := true }.addAll rest
      else if arg.toList.head? = some '-' then .error (.unknownOption arg)
      else if o.path.isNone then { o with path := some arg }.addAll rest
      else .error (.unexpectedArgument arg)

def RunOptions.ofArgs (args : List String) : Except OptionFault RunOptions :=
  RunOptions.addAll ⟨none, none, false⟩ args

end Quill.Command
