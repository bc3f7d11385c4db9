import Quill.Code.Image
import Quill.Lowering.Fault

/-! # Drafts of methods

A draft is a method whose code is still growing.  Labels are created before their position is
known and are marked when the code has reached it; `finish` asks that every label was marked. -/

namespace Quill.Lowering

open Code

/-- A method under construction. -/
structure Draft where
  name : String
  params : List Ty
  returnType : Ty
  locals : Array Local
  code : Array Instr
  /-- The position of each label, once it is marked. -/
  labels : Array (Option Nat)
  deriving DecidableEq, Repr, Inhabited

namespace Draft

def new (name : String) (params : List Ty) (returnType : Ty) : Draft :=
  { name, params, returnType, locals := #[], code := #[], labels := #[] }

/-- The draft with a new label, and the label. -/
def newLabel (d : Draft) : Nat × Draft :=
  (d.labels.size, { d with labels := d.labels.push none })

/-- The draft with the label's marker at the end of its code. -/
def mark (d : Draft) (label : Nat) : Draft :=
  { d with
    labels := d.labels.setIfInBounds label (some d.code.size)
    code := d.code.push (.label label) }

/-- The draft with one more instruction. -/
def emit (d : Draft) (i : Instr) : Draft := { d with code := d.code.push i }

/-- The slot of one more local variable, and the draft with it; a draft whose slots are all taken
stays as it is. -/
def allocLocal (d : Draft) (name : String) (ty : Ty) : Except Fault Nat × Draft :=
  let slot := d.locals.size
  if slot < slotLimit then (.ok slot, { d with locals := d.locals.push ⟨name, ty⟩ })
  else (.error (.malformed (.tooManyLocals d.name)), d)

/-- The finished method; the first label that was never marked is a fault. -/
def finish (d : Draft) : Except Fault Method :=
  match d.labels.findIdx? Option.isNone with
  | some label => .error (.unmarkedLabel d.name label)
  | none =>
    .ok { name := d.name, params := d.params, returnType := d.returnType, locals := d.locals,
          code := d.code, labels := d.labels.filterMap id, host := none }

end Draft

end Quill.Lowering
