import Quill.Code.Image

/-! # Shapes of frames

The shape of a frame at a position of its method: the types of its operands and the local slots
that have been assigned.  `Goes` says to which shapes an instruction leads from a shape.

`Safe p m E pc S` says that a frame of shape `S` at the position `pc` meets a fitting instruction at
every step, as long as it runs or until it comes to one of the exits `E`.  It is the greatest such
property, so it can be shown of a loop by showing it of one round (`Safe.loop`), and pieces of code
that follow each other are put together with `Safe.trans`. -/

namespace Quill.Code

/-- What is known of a frame at a position: the types of its operands, the top first, and the
local slots that have been assigned. -/
structure Shape where
  stack : List Ty
  assigned : Nat → Prop

/-- Less is known of the second frame: fewer slots are assigned. -/
structure Shape.Le (S S' : Shape) : Prop where
  stack : S'.stack = S.stack
  assigned : ∀ k, S'.assigned k → S.assigned k

theorem Shape.Le.refl (S : Shape) : S.Le S := ⟨rfl, fun _ h => h⟩

theorem Shape.Le.trans {S S' S'' : Shape} (h : S.Le S') (h' : S'.Le S'') : S.Le S'' :=
  ⟨h'.stack.trans h.stack, fun k hk => h.assigned k (h'.assigned k hk)⟩

/-- The operands that a result of a type makes. -/
def resultTys (t : Ty) : List Ty := if t.isValue = true then [t] else []

/-- The types whose values are integers of the machine. -/
def IsInt (t : Ty) : Prop := t = .integer ∨ t = .boolean

/-- A type that a comparison of a number type takes. -/
def Compares : Numeric → Ty → Prop
  | .integer, t => IsInt t
  | .float, t => t = .float

/-- The shapes of an operation of the machine: what it takes and what it leaves. -/
inductive Intrinsic.Takes : Intrinsic → List Ty → List Ty → Prop
  | print : Takes .print [.string] []
  | printLn : Takes .printLn [.string] []
  | readLn : Takes .readLn [] [.string]
  | intToStr : Takes .intToStr [.integer] [.string]
  | floatToStr : Takes .floatToStr [.float] [.string]
  | boolToStr : Takes .boolToStr [.boolean] [.string]
  | parseInt : Takes .parseInt [.string] [.integer]
  | parseFloat : Takes .parseFloat [.string] [.float]
  | strLen : Takes .strLen [.string] [.integer]
  | arrayLen (element : Element) (rank : Nat) : Takes .arrayLen [.array element rank] [.integer]
  | charAt : Takes .charAt [.integer, .string] [.string]

section

variable (p : Image)

/-- What an instruction takes and leaves, where it depends on nothing but its operands. -/
inductive Takes : Instr → List Ty → List Ty → Prop
  | nop : Takes .nop [] []
  | label (l : Nat) : Takes (.label l) [] []
  | pushInt (v : Int64) : Takes (.pushInt v) [] [.integer]
  | pushTruth (b : Bool) : Takes (.pushInt (if b then 1 else 0)) [] [.boolean]
  | pushFloat (bits : UInt64) : Takes (.pushFloat bits) [] [.float]
  | pushStr {id : Nat} {s : String} : p.strings[id]? = some s → Takes (.pushStr id) [] [.string]
  | arith (op : ArithOp) (n : Numeric) : Takes (.arith op n) [n.toTy, n.toTy] [n.toTy]
  | logic (op : ArithOp) : op ≠ .div →
    Takes (.arith op .integer) [.boolean, .boolean] [.integer]
  | intToFloat : Takes .intToFloat [.integer] [.float]
  | concat : Takes .concat [.string, .string] [.string]
  | strEq : Takes .strEq [.string, .string] [.boolean]
  | newArray (e : Element) (rank : Nat) :
    Takes (.newArray e rank) (List.replicate rank .integer) [.array e rank]
  | loadElem (e : Element) : Takes .loadElem [.integer, .array e 1] [e.toTy]
  | storeElem (e : Element) : Takes .storeElem [e.toTy, .integer, .array e 1] []
  | arrayGet (e : Element) (rank : Nat) :
    Takes (.arrayGet rank) (List.replicate rank .integer ++ [.array e rank]) [e.toTy]
  | arraySet (e : Element) (rank : Nat) :
    Takes (.arraySet rank) (e.toTy :: (List.replicate rank .integer ++ [.array e rank])) []
  | callHost {h : Nat} {r : HostRoutine} : p.hostRoutines[h]? = some r →
    Takes (.callHost h) r.params.reverse (resultTys r.returnType)
  | intrinsic {i : Intrinsic} {σ τ : List Ty} : i.Takes σ τ → Takes (.intrinsic i) σ τ
  | pop (t : Ty) : Takes .pop [t] []

variable (m : Method)

/-- The shapes to which an instruction leads: that at the next position, if it can continue there,
and that at the position it can branch to. -/
inductive Goes : Instr → Shape → Option Shape → Option (Nat × Shape) → Prop
  | takes {i : Instr} {σ τ : List Ty} (ρ : List Ty) (A : Nat → Prop) : Takes p i σ τ →
    Goes i ⟨σ ++ ρ, A⟩ (some ⟨τ ++ ρ, A⟩) none
  | loadArg {slot : Nat} {t : Ty} (ρ : List Ty) (A : Nat → Prop) : m.params[slot]? = some t →
    Goes (.loadArg slot) ⟨ρ, A⟩ (some ⟨t :: ρ, A⟩) none
  | storeArg {slot : Nat} {t : Ty} (ρ : List Ty) (A : Nat → Prop) : m.params[slot]? = some t →
    Goes (.storeArg slot) ⟨t :: ρ, A⟩ (some ⟨ρ, A⟩) none
  | loadLocal {slot : Nat} {l : Local} (ρ : List Ty) {A : Nat → Prop} :
    m.locals[slot]? = some l → A slot → Goes (.loadLocal slot) ⟨ρ, A⟩ (some ⟨l.ty :: ρ, A⟩) none
  | storeLocal {slot : Nat} {l : Local} (ρ : List Ty) (A : Nat → Prop) :
    m.locals[slot]? = some l →
    Goes (.storeLocal slot) ⟨l.ty :: ρ, A⟩ (some ⟨ρ, fun k => k = slot ∨ A k⟩) none
  | branchCmp {op : Comparison} {n : Numeric} {target pos : Nat} {t t' : Ty} (ρ : List Ty)
    (A : Nat → Prop) : m.position? target = some pos → Compares n t → Compares n t' →
    Goes (.branchCmp op n target) ⟨t :: t' :: ρ, A⟩ (some ⟨ρ, A⟩) (some (pos, ⟨ρ, A⟩))
  | branchIfTrue {target pos : Nat} {t : Ty} (ρ : List Ty) (A : Nat → Prop) :
    m.position? target = some pos → IsInt t →
    Goes (.branchIfTrue target) ⟨t :: ρ, A⟩ (some ⟨ρ, A⟩) (some (pos, ⟨ρ, A⟩))
  | jump {target pos : Nat} (S : Shape) : m.position? target = some pos →
    Goes (.jump target) S none (some (pos, S))
  | call {id : Nat} {c : Method} (ρ : List Ty) (A : Nat → Prop) : p.methods[id]? = some c →
    c.host = none → Goes (.call id c.params.length) ⟨c.params.reverse ++ ρ, A⟩
      (some ⟨resultTys c.returnType ++ ρ, A⟩) none
  | ret (A : Nat → Prop) : Goes .ret ⟨resultTys m.returnType, A⟩ none none

/-! ### Safe positions -/

/-- A position is come to in a shape of which no more is known than is true. -/
def Arrives (R : Nat → Shape → Prop) (pc : Nat) (S : Shape) : Prop := ∃ S', S.Le S' ∧ R pc S'

/-- At the position stands an instruction that fits the shape and leads to `R`. -/
def Steps (R : Nat → Shape → Prop) (pc : Nat) (S : Shape) : Prop :=
  ∃ i next branch, m.code[pc]? = some i ∧ Goes p m i S next branch ∧
    (∀ S', next = some S' → Arrives R (pc + 1) S') ∧
    ∀ pos S', branch = some (pos, S') → Arrives R pos S'

/-- From the positions and shapes of `R` every step leads to those of `R` again, or to exits. -/
def Covers (R E : Nat → Shape → Prop) : Prop :=
  ∀ pc S, R pc S → Steps p m (fun k X => R k X ∨ E k X) pc S

/-- A frame of the shape at the position finds fitting instructions as long as it runs, or until
it comes to an exit. -/
def Safe (E : Nat → Shape → Prop) (pc : Nat) (S : Shape) : Prop :=
  ∃ R, R pc S ∧ Covers p m R E

/-- The frame is safe, or at an exit already. -/
def Reaches (E : Nat → Shape → Prop) : Nat → Shape → Prop :=
  Arrives fun pc S => Safe p m E pc S ∨ E pc S

/-- The single exit of a piece of code, unless the code cannot be left. -/
def exitAt (b : Nat) (o : Option Shape) : Nat → Shape → Prop := fun pc S => pc = b ∧ o = some S

end

section

variable {p : Image} {m : Method} {E E' : Nat → Shape → Prop} {pc : Nat} {S : Shape}

theorem Arrives.imp {R R' : Nat → Shape → Prop} (h : Arrives R pc S)
    (hR : ∀ k X, R k X → Arrives R' k X) : Arrives R' pc S := by
  obtain ⟨S', hle, hr⟩ := h
  obtain ⟨S'', hle', hr'⟩ := hR pc S' hr
  exact ⟨S'', hle.trans hle', hr'⟩

theorem Arrives.of {R : Nat → Shape → Prop} (h : R pc S) : Arrives R pc S :=
  ⟨S, Shape.Le.refl S, h⟩

theorem Steps.imp {R R' : Nat → Shape → Prop} (h : Steps p m R pc S)
    (hR : ∀ k X, R k X → Arrives R' k X) : Steps p m R' pc S := by
  obtain ⟨i, next, branch, hi, hg, hn, hb⟩ := h
  exact ⟨i, next, branch, hi, hg, fun S' h => (hn S' h).imp hR, fun pos S' h => (hb pos S' h).imp hR⟩

/-- Safe positions cover themselves. -/
theorem covers_safe : Covers p m (Safe p m E) E := by
  rintro pc S ⟨R, hr, hcov⟩
  refine (hcov pc S hr).imp ?_
  rintro k X (h | h)
  · exact .of (.inl ⟨R, h, hcov⟩)
  · exact .of (.inr h)

theorem Safe.step (h : Steps p m (fun k X => Safe p m E k X ∨ E k X) pc S) : Safe p m E pc S := by
  refine ⟨fun k X => (k = pc ∧ X = S) ∨ Safe p m E k X, .inl ⟨rfl, rfl⟩, ?_⟩
  have hsub : ∀ k X, Safe p m E k X ∨ E k X →
      Arrives (fun k X => ((k = pc ∧ X = S) ∨ Safe p m E k X) ∨ E k X) k X := by
    rintro k X (h | h)
    · exact .of (.inl (.inr h))
    · exact .of (.inr h)
  rintro k X (⟨rfl, rfl⟩ | hs)
  · exact h.imp hsub
  · exact (covers_safe k X hs).imp hsub

/-- Code that leads to exits from which the frame is safe is safe. -/
theorem Safe.trans (h : Safe p m E' pc S) (hE : ∀ k X, E' k X → Reaches p m E k X) :
    Safe p m E pc S := by
  refine ⟨fun k X => Safe p m E' k X ∨ Safe p m E k X, .inl h, ?_⟩
  have hsub : ∀ k X, Safe p m E k X ∨ E k X →
      Arrives (fun k X => (Safe p m E' k X ∨ Safe p m E k X) ∨ E k X) k X := by
    rintro k X (h | h)
    · exact .of (.inl (.inr h))
    · exact .of (.inr h)
  rintro k X (hs | hs)
  · refine (covers_safe k X hs).imp ?_
    rintro k X (h | h)
    · exact .of (.inl (.inl h))
    · exact (hE k X h).imp hsub
  · exact (covers_safe k X hs).imp hsub

/-- A round of a loop that leads back to its start, or to exits. -/
theorem Safe.loop (h : Safe p m (fun k X => (k = pc ∧ X = S) ∨ E k X) pc S) :
    Safe p m E pc S := by
  refine ⟨Safe p m fun k X => (k = pc ∧ X = S) ∨ E k X, h, fun k X hk => ?_⟩
  refine (covers_safe k X hk).imp ?_
  rintro k X (hs | ⟨rfl, rfl⟩ | he)
  · exact .of (.inl hs)
  · exact .of (.inl h)
  · exact .of (.inr he)

theorem Reaches.trans (h : Reaches p m E' pc S) (hE : ∀ k X, E' k X → Reaches p m E k X) :
    Reaches p m E pc S := by
  refine h.imp fun k X hk => ?_
  rcases hk with hs | he
  · exact .of (.inl (hs.trans hE))
  · exact hE k X he

theorem Reaches.mono (h : Reaches p m E' pc S) (hE : ∀ k X, E' k X → E k X) :
    Reaches p m E pc S := h.trans fun _ _ hk => .of (.inr (hE _ _ hk))

theorem Reaches.weaken {S' : Shape} (hle : S.Le S') (h : Reaches p m E pc S') :
    Reaches p m E pc S := by
  obtain ⟨S'', hle', hr⟩ := h
  exact ⟨S'', hle.trans hle', hr⟩

theorem Reaches.exit {o : Option Shape} (h : o = some S) : Reaches p m (exitAt pc o) pc S :=
  .of (.inr ⟨rfl, h⟩)

theorem Reaches.step {i : Instr} {next : Option Shape} {branch : Option (Nat × Shape)}
    (hi : m.code[pc]? = some i) (hg : Goes p m i S next branch)
    (hn : ∀ S', next = some S' → Reaches p m E (pc + 1) S')
    (hb : ∀ pos S', branch = some (pos, S') → Reaches p m E pos S') : Reaches p m E pc S :=
  .of (.inl (.step ⟨i, next, branch, hi, hg, hn, hb⟩))

theorem Reaches.next {i : Instr} {S' : Shape} (hi : m.code[pc]? = some i)
    (hg : Goes p m i S (some S') none) (h : Reaches p m E (pc + 1) S') : Reaches p m E pc S :=
  .step hi hg (fun _ hX => Option.some.inj hX ▸ h) fun _ _ h => nomatch h

theorem Reaches.seq {b c : Nat} {S' : Shape} {o : Option Shape}
    (h : Reaches p m (exitAt b (some S')) pc S) (h' : Reaches p m (exitAt c o) b S') :
    Reaches p m (exitAt c o) pc S := by
  refine h.trans ?_
  rintro k X ⟨rfl, hX⟩
  cases hX
  exact h'

end

end Quill.Code
