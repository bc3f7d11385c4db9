import Quill.Code.Image

/-! # Observers of runs

An observer is told of every instruction before it is carried out, and of every label that is
passed; what it has seen is a value of its own type.  `LabelCounter` counts both. -/

namespace Quill.Machine

open Code

/-- How the instructions and labels of a run are watched. -/
structure Observer (σ : Type) where
  onStep : σ → Method → Nat → Instr → σ
  onLabel : σ → Method → Nat → σ

def Observer.blind : Observer Unit := ⟨fun _ _ _ _ => (), fun _ _ _ => ()⟩

/-- What an observer has seen after an instruction. -/
def Observer.see (o : Observer σ) (seen : σ) (m : Method) (pc : Nat) (i : Instr) : σ :=
  let seen := o.onStep seen m pc i
  match i with
  | .label l => o.onLabel seen m l
  | _ => seen

def Observer.both (o : Observer σ) (o' : Observer τ) : Observer (σ × τ) where
  onStep seen m pc i := (o.onStep seen.1 m pc i, o'.onStep seen.2 m pc i)
  onLabel seen m l := (o.onLabel seen.1 m l, o'.onLabel seen.2 m l)

/-! ### Label counters -/

/-- How often a label of a method was passed. -/
structure Hit where
  method : String
  label : Nat
  count : Nat
  deriving DecidableEq, Repr, Inhabited

/-- The number of instructions, and of passes of each label, by method name and label. -/
structure LabelCounter where
  hits : List Hit
  steps : Nat
  deriving DecidableEq, Repr, Inhabited

namespace LabelCounter

def zero : LabelCounter := ⟨[], 0⟩

/-- The counts with one more pass; they stay in the order of method names and labels. -/
def bump (method : String) (label : Nat) : List Hit → List Hit
  | [] => [⟨method, label, 1⟩]
  | h :: rest =>
    if h.method = method then
      if h.label = label then { h with count := h.count + 1 } :: rest
      else if label < h.label then ⟨method, label, 1⟩ :: h :: rest
      else h :: bump method label rest
    else if method < h.method then ⟨method, label, 1⟩ :: h :: rest
    else h :: bump method label rest

def hitsOf (c : LabelCounter) (method : String) (label : Nat) : Nat :=
  match c.hits.find? fun h => h.method = method ∧ h.label = label with
  | some h => h.count
  | none => 0

def observer : Observer LabelCounter where
  onStep c _ _ _ := { c with steps := c.steps + 1 }
  onLabel c m l := { c with hits := bump m.name l c.hits }

end LabelCounter

end Quill.Machine
