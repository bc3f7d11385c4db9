import Quill.Code.Effect

/-! # The flow of control

Where control can go from an instruction, and the depths of the operand stack along the way. -/

namespace Quill.Code

/-- Control can go on at the next position. -/
def Instr.falls : Instr → Bool
  | .jump _ | .ret => false
  | _ => true

/-- Control can go from an instruction, behind which is the position `next`, to the position
`pc`. -/
def Leads (m : Method) (i : Instr) (next pc : Nat) : Prop :=
  (i.falls = true ∧ pc = next) ∨ ∃ label, i.target? = some label ∧ m.position? label = some pc

theorem Leads.next {m : Method} {i : Instr} (h : i.falls = true) (next : Nat) :
    Leads m i next next := .inl ⟨h, rfl⟩

theorem Leads.branch {m : Method} {i : Instr} {label pc : Nat} (h : i.target? = some label)
    (hpc : m.position? label = some pc) (next : Nat) : Leads m i next pc := .inr ⟨label, h, hpc⟩

end Quill.Code
