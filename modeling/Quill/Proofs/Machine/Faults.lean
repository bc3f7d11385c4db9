import Quill.Machine.Step

/-! # Faults of looking at values

Looking at values, computing with them and looking up methods can fail, but only with faults that
are about the values and the image: such a fault is plain.  It tells neither of operands that the
stack lacks nor of elements that an array lacks. -/

namespace Quill.Machine

open Code

/-- The fault tells neither of missing or left-over operands nor of a missing element. -/
def Fault.isPlain : Fault → Bool
  | .stackUnderflow _ | .stackImbalance _ _ _ | .missingElement _ _ => false
  | _ => true

/-- A result, or a plain fault. -/
def Plain {α : Type} (r : Except Fault α) : Prop := ∀ e, r = .error e → e.isPlain = true

section

variable {α β : Type}

theorem Plain.ok (a : α) : Plain (.ok a) := fun _ h => by cases h

theorem Plain.error {e : Fault} (h : e.isPlain = true) : Plain (.error e : Except Fault α) :=
  fun _ he => Except.error.inj he ▸ h

theorem Plain.bind {r : Except Fault α} {k : α → Except Fault β} (hr : Plain r)
    (hk : ∀ a, Plain (k a)) : Plain (r >>= k) := by
  cases r with
  | error e => exact .error (hr e rfl)
  | ok a => exact hk a

end

theorem plain_asInt (v : Value) : Plain v.asInt := by
  cases v with
  | int n => exact .ok n
  | _ => exact .error rfl

theorem plain_asFloat (v : Value) : Plain v.asFloat := by
  cases v with
  | float x => exact .ok x
  | _ => exact .error rfl

theorem plain_asStr (v : Value) : Plain v.asStr := by
  cases v with
  | str s => exact .ok s
  | _ => exact .error rfl

theorem plain_asArray (v : Value) : Plain v.asArray := by
  cases v with
  | array ref => exact .ok ref
  | _ => exact .error rfl

theorem plain_asInts (vs : List Value) : Plain (Value.asInts vs) := by
  induction vs with
  | nil => exact .ok []
  | cons v vs ih => exact (plain_asInt v).bind fun _ => ih.bind fun _ => .ok _

theorem plain_arith (op : ArithOp) (ty : Numeric) (lhs rhs : Value) :
    Plain (arith op ty lhs rhs) := by
  cases ty with
  | integer =>
    refine (plain_asInt lhs).bind fun a => (plain_asInt rhs).bind fun b => .bind ?_ fun _ => .ok _
    cases op with
    | div =>
      unfold arithInt
      dsimp only
      split
      · exact .error rfl
      · exact .ok _
    | _ => exact .ok _
  | float => exact (plain_asFloat lhs).bind fun _ => (plain_asFloat rhs).bind fun _ => .ok _

theorem plain_holds (cond : Comparison) (ty : Numeric) (lhs rhs : Value) :
    Plain (holds cond ty lhs rhs) := by
  cases ty with
  | integer => exact (plain_asInt lhs).bind fun _ => (plain_asInt rhs).bind fun _ => .ok _
  | float => exact (plain_asFloat lhs).bind fun _ => (plain_asFloat rhs).bind fun _ => .ok _

theorem plain_parseInt (s : String) : Plain (parseInt s) := by
  unfold parseInt
  split
  · exact .ok _
  · exact .error rfl

theorem plain_parseFloat (s : String) : Plain (parseFloat s) := by
  unfold parseFloat
  split
  · exact .ok _
  · exact .error rfl

theorem plain_charAt (s : String) (index : Int64) : Plain (charAt s index) := by
  unfold charAt
  dsimp only
  split
  · exact .ok _
  · exact .error rfl

theorem plain_offsetFrom (indices : List Int64) :
    ∀ (row : Nat) (sizes : List Nat), Plain (ArrayValue.offsetFrom row indices sizes) := by
  induction indices with
  | nil => exact fun row sizes => .ok row
  | cons index indices ih =>
    intro row sizes
    cases sizes with
    | nil => exact .ok row
    | cons size sizes =>
      rw [ArrayValue.offsetFrom]
      split
      · exact ih _ sizes
      · exact .error rfl

theorem plain_offset (a : ArrayValue) (indices : List Int64) : Plain (a.offset indices) := by
  unfold ArrayValue.offset
  split
  · exact .error rfl
  · exact plain_offsetFrom indices 0 a.dims

theorem plain_dimensions (dims : List Int64) :
    ∀ (total : Nat) (done : List Nat), Plain (dimensions total done dims) := by
  induction dims with
  | nil => exact fun _ _ => .ok _
  | cons dim dims ih =>
    intro total done
    rw [dimensions]
    split
    · exact .error rfl
    · dsimp only
      split
      · exact ih _ _
      · exact .error rfl

theorem plain_new (element : Element) (dims : List Int64) : Plain (ArrayValue.new element dims) :=
  (plain_dimensions dims 1 []).bind fun _ => .ok _

theorem plain_callee (p : Image) (method argc : Nat) : Plain (callee p method argc) := by
  unfold callee
  split
  · exact .error rfl
  · split
    · exact .error rfl
    · split
      · exact .error rfl
      · exact .ok _

/-! ### The routines of the command line -/

theorem plain_integerAction (g : Int64 → Int64) (args : List Value) (as : Arrays) :
    Plain (integerAction g args as) := by
  cases args with
  | nil => exact .ok _
  | cons v args => exact (plain_asInt v).bind fun _ => .ok _

theorem plain_floatAction (g : Float → Float) (args : List Value) (as : Arrays) :
    Plain (floatAction g args as) := by
  cases args with
  | nil => exact .ok _
  | cons v args => exact (plain_asFloat v).bind fun _ => .ok _

theorem plain_floatAction₂ (g : Float → Float → Float) (args : List Value) (as : Arrays) :
    Plain (floatAction₂ g args as) := by
  cases args with
  | nil => exact .ok _
  | cons v args =>
    cases args with
    | nil => exact .ok _
    | cons v' args => exact (plain_asFloat v).bind fun _ => (plain_asFloat v').bind fun _ => .ok _

/-- The routines of a command-line run compute with one or two numbers. -/
theorem standard_cases {r : HostRoutine} {action : HostAction}
    (h : Hosts.standard.find? r = some action) :
    (∃ g, action = integerAction g) ∨ (∃ g, action = floatAction g) ∨
      ∃ g, action = floatAction₂ g := by
  unfold Hosts.find? Hosts.standard at h
  simp only [List.lookup_cons, List.lookup_nil] at h
  split at h
  · cases h
    exact .inl ⟨_, rfl⟩
  · split at h
    · cases h
      exact .inr (.inl ⟨_, rfl⟩)
    · split at h
      · cases h
        exact .inr (.inl ⟨_, rfl⟩)
      · split at h
        · cases h
          exact .inr (.inr ⟨_, rfl⟩)
        · cases h

theorem plain_standard {r : HostRoutine} {action : HostAction}
    (h : Hosts.standard.find? r = some action) (args : List Value) (as : Arrays) :
    Plain (action args as) := by
  rcases standard_cases h with ⟨g, rfl⟩ | ⟨g, rfl⟩ | ⟨g, rfl⟩
  · exact plain_integerAction g args as
  · exact plain_floatAction g args as
  · exact plain_floatAction₂ g args as

end Quill.Machine
