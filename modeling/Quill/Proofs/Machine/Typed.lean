import Quill.Proofs.Code.Shape
import Quill.Proofs.Machine.Effect
import Quill.Proofs.Typing.Flow

/-! # Values of a type

`HasTy as v t` says that the value `v` is one of the type `t`: an integer, zero or one for a
Boolean, a number, a text, or a reference to an array of just that element type and rank.  Arrays
never hold arrays, and no array changes its element type or rank, so values keep their types while
the program runs (`HasTy.mono`).

The effects of instructions on operands of the types that they take leave operands of the types
that they promise, and end in none of the faults that a checked program cannot have. -/

namespace Quill.Machine

open Code

/-- The value is one of the type. -/
def HasTy (as : Arrays) : Value → Ty → Prop
  | .int _, .integer => True
  | .int n, .boolean => n = 0 ∨ n = 1
  | .float _, .float => True
  | .str _, .string => True
  | .array ref, .array e rank => ∃ a, as.find ref = .ok a ∧ a.element = e ∧ a.dims.length = rank
  | _, _ => False

/-- Every element of every array is of the array's element type. -/
def ArraysOk (as : Arrays) : Prop := ∀ a ∈ as, ∀ v ∈ a.data, HasTy as v a.element.toTy

/-- Every array is still there, with its element type and rank. -/
def Keeps (as as' : Arrays) : Prop :=
  ∀ ref a, as.find ref = .ok a →
    ∃ a', as'.find ref = .ok a' ∧ a'.element = a.element ∧ a'.dims.length = a.dims.length

/-- The faults that only an image has that no compiler produces. -/
def Fault.internal : Fault → Bool
  | .typeMismatch _ _ | .stackUnderflow _ | .stackImbalance _ _ _ | .invalidProgram _ => true
  | .divisionByZero | .indexOutOfBounds _ _ | .invalidDimension _ | .unknownHostRoutine _
  | .hostFailure _ _ | .malformedNumber _ _ | .stepLimitExceeded _ | .console _
  | .missingElement _ _ => false

/-- A computation gives what `Q` says, or ends in a fault that is not internal. -/
def Sound (Q : α → Prop) : Except Fault α → Prop
  | .ok a => Q a
  | .error e => e.internal = false

theorem Sound.bind {Q : α → Prop} {Q' : β → Prop} {x : Except Fault α} {g : α → Except Fault β}
    (h : Sound Q x) (hg : ∀ a, Q a → Sound Q' (g a)) : Sound Q' (x >>= g) := by
  cases x with
  | error e => exact h
  | ok a => exact hg a h

theorem Sound.imp {Q Q' : α → Prop} {x : Except Fault α} (h : Sound Q x)
    (hq : ∀ a, Q a → Q' a) : Sound Q' x := by
  cases x with
  | error e => exact h
  | ok a => exact hq a h

/-- What a host routine gives for arguments of its parameter types: a failure of its own, or a
result of its declared type, none if that has no values; the arrays stay well typed. -/
def RoutineOk (r : HostRoutine) (action : HostAction) : Prop :=
  ∀ args as, ArraysOk as → List.Forall₂ (HasTy as) args r.params →
    match action args as with
    | .ok (result, as') =>
      ArraysOk as' ∧ Keeps as as' ∧ List.Forall₂ (HasTy as') result.toList (resultTys r.returnType)
    | .error e => ∃ routine message, e = .hostFailure routine message

/-- Every routine that the image names and the host has gives what is declared. -/
def HostsOk (p : Image) (hosts : Hosts) : Prop :=
  ∀ r ∈ p.hostRoutines, ∀ action, hosts.find? r = some action → RoutineOk r action

/-! ### Values -/

section

variable {as as' : Arrays} {v : Value} {t : Ty}

theorem Keeps.refl (as : Arrays) : Keeps as as := fun _ a ha => ⟨a, ha, rfl, rfl⟩

theorem Keeps.trans {as'' : Arrays} (h : Keeps as as') (h' : Keeps as' as'') : Keeps as as'' := by
  intro ref a ha
  obtain ⟨b, hb, he, hd⟩ := h ref a ha
  obtain ⟨c, hc, he', hd'⟩ := h' ref b hb
  exact ⟨c, hc, he'.trans he, hd'.trans hd⟩

theorem HasTy.mono (h : HasTy as v t) (hk : Keeps as as') : HasTy as' v t := by
  cases v with
  | array ref =>
    cases t with
    | array e rank =>
      obtain ⟨a, ha, he, hd⟩ := h
      obtain ⟨b, hb, he', hd'⟩ := hk ref a ha
      exact ⟨b, hb, he'.trans he, hd'.trans hd⟩
    | _ => exact h
  | _ => cases t <;> exact h

theorem forall₂_hasTy_mono {vs : List Value} {ts : List Ty} (h : List.Forall₂ (HasTy as) vs ts)
    (hk : Keeps as as') : List.Forall₂ (HasTy as') vs ts := h.imp fun _ _ h => h.mono hk

theorem forall₂_append_right {α β : Type} {R : α → β → Prop} {l : List α} {l₁ l₂ : List β}
    (h : List.Forall₂ R l (l₁ ++ l₂)) :
    ∃ a b, l = a ++ b ∧ List.Forall₂ R a l₁ ∧ List.Forall₂ R b l₂ :=
  ⟨_, _, (List.take_append_drop l₁.length l).symm, List.forall₂_take_append _ _ _ h,
    List.forall₂_drop_append _ _ _ h⟩

theorem HasTy.isValue (h : HasTy as v t) : t.isValue = true := by
  cases t with
  | void | undefined => cases v <;> exact h.elim
  | _ => rfl

theorem HasTy.exists_int (h : HasTy as v t) (ht : IsInt t) : ∃ n, v = .int n := by
  rcases ht with rfl | rfl
  · cases v with
    | int n => exact ⟨n, rfl⟩
    | _ => exact h.elim
  · cases v with
    | int n => exact ⟨n, rfl⟩
    | _ => exact h.elim

theorem HasTy.exists_float (h : HasTy as v .float) : ∃ x, v = .float x := by
  cases v with
  | float x => exact ⟨x, rfl⟩
  | _ => exact h.elim

theorem HasTy.exists_str (h : HasTy as v .string) : ∃ s, v = .str s := by
  cases v with
  | str s => exact ⟨s, rfl⟩
  | _ => exact h.elim

theorem HasTy.exists_bool (h : HasTy as v .boolean) : ∃ b, v = .ofBool b := by
  cases v with
  | int n =>
    rcases h with rfl | rfl
    · exact ⟨false, rfl⟩
    · exact ⟨true, rfl⟩
  | _ => exact h.elim

theorem HasTy.exists_array {e : Element} {rank : Nat} (h : HasTy as v (.array e rank)) :
    ∃ ref a, v = .array ref ∧ as.find ref = .ok a ∧ a.element = e ∧ a.dims.length = rank := by
  cases v with
  | array ref =>
    obtain ⟨a, ha⟩ := h
    exact ⟨ref, a, rfl, ha⟩
  | _ => exact h.elim

theorem hasTy_ofBool (as : Arrays) (b : Bool) : HasTy as (.ofBool b) .boolean := by
  cases b
  · exact .inl rfl
  · exact .inr rfl

theorem hasTy_defaultElement (as : Arrays) (e : Element) :
    HasTy as (defaultElement e) e.toTy := by
  cases e with
  | boolean => exact .inl rfl
  | _ => trivial

theorem hasTy_initial (h : Heap) (ht : t.isValue = true) : HasTy as (h.initial t).1 t := by
  cases t with
  | boolean => exact .inl rfl
  | array e rank => exact ⟨.empty e rank, rfl, rfl, List.length_replicate⟩
  | void | undefined => cases ht
  | integer | float | string => trivial

theorem asInts_of_hasTy {vs : List Value} {k : Nat}
    (h : List.Forall₂ (HasTy as) vs (List.replicate k .integer)) :
    ∃ ns, Value.asInts vs = .ok ns ∧ ns.length = k := by
  induction k generalizing vs with
  | zero =>
    cases h
    exact ⟨[], rfl, rfl⟩
  | succ k ih =>
    rw [List.replicate_succ] at h
    cases h with
    | cons hv hvs =>
      obtain ⟨n, rfl⟩ := hv.exists_int (.inl rfl)
      obtain ⟨ns, hns, hlen⟩ := ih hvs
      refine ⟨n :: ns, ?_, congrArg Nat.succ hlen⟩
      rw [Value.asInts, hns]
      rfl

/-! ### Arrays -/

theorem find_push (a : ArrayValue) {ref : Ref} {b : ArrayValue} (h : as.find ref = .ok b) :
    Arrays.find (as.push a) ref = .ok b := by
  cases ref with
  | empty e rank id => exact h
  | made place =>
    unfold Arrays.find at h ⊢
    dsimp only at h ⊢
    cases hp : as[place]? with
    | none => rw [hp] at h; cases h
    | some c =>
      have hlt : place < as.size := (Array.getElem?_eq_some_iff.mp hp).1
      rw [hp] at h
      rw [Array.getElem?_push_lt hlt, ← Array.getElem?_eq_getElem hlt, hp]
      exact h

theorem Keeps.push (as : Arrays) (a : ArrayValue) : Keeps as (as.push a) :=
  fun _ b hb => ⟨b, find_push a hb, rfl, rfl⟩

theorem find_size_push (as : Arrays) (a : ArrayValue) :
    Arrays.find (as.push a) (.made as.size) = .ok a := by
  unfold Arrays.find
  dsimp only
  rw [Array.getElem?_push_size]

theorem ArraysOk.push (h : ArraysOk as) {a : ArrayValue}
    (ha : ∀ v ∈ a.data, HasTy as v a.element.toTy) : ArraysOk (as.push a) := by
  intro b hb v hv
  rcases Array.mem_push.mp hb with hb | rfl
  · exact (h b hb v hv).mono (.push as a)
  · exact (ha v hv).mono (.push as b)

/-- What a reference means is an array with elements of its type. -/
theorem ArraysOk.find (h : ArraysOk as) {ref : Ref} {a : ArrayValue} (ha : as.find ref = .ok a) :
    ∀ v ∈ a.data, HasTy as v a.element.toTy := by
  unfold Arrays.find at ha
  split at ha
  · split at ha
    · next hb =>
      cases ha
      exact h a (Array.mem_of_getElem? hb)
    · cases ha
  · cases ha
    exact fun v hv => absurd hv (Array.not_mem_empty v)

theorem ArraysOk.replace (h : ArraysOk as) {ref : Ref} {a : ArrayValue}
    (ha : as.find ref = .ok a) (i : Nat) (hv : HasTy as v a.element.toTy) :
    ArraysOk (as.replace ref i v) ∧ Keeps as (as.replace ref i v) := by
  cases ref with
  | empty e rank id => exact ⟨h, .refl as⟩
  | made place =>
    have hk : Keeps as (as.replace (.made place) i v) := by
      intro ref b hb
      cases ref with
      | empty e rank id => exact ⟨b, hb, rfl, rfl⟩
      | made k =>
        unfold Arrays.find at hb ⊢
        unfold Arrays.replace
        dsimp only at hb ⊢
        rw [Array.getElem?_modify]
        split at hb
        · next hbk =>
          obtain rfl := Except.ok.inj hb
          rw [hbk]
          by_cases hplace : place = k
          · rw [if_pos hplace]
            exact ⟨_, rfl, rfl, rfl⟩
          · rw [if_neg hplace]
            exact ⟨_, rfl, rfl, rfl⟩
        · cases hb
    refine ⟨fun b hb u hu => ?_, hk⟩
    unfold Arrays.replace at hb
    dsimp only at hb
    obtain ⟨k, hbk⟩ := Array.mem_iff_getElem?.mp hb
    rw [Array.getElem?_modify] at hbk
    split at hbk
    · next hplace =>
      obtain ⟨c, hc, rfl⟩ := Option.map_eq_some_iff.mp hbk
      have hca : c = a := by
        unfold Arrays.find at ha
        dsimp only at ha
        rw [hplace, hc] at ha
        exact Except.ok.inj ha
      subst hca
      rcases Array.mem_or_eq_of_mem_setIfInBounds hu with hu | rfl
      · exact (h c (Array.mem_of_getElem? hc) u hu).mono hk
      · exact hv.mono hk
    · exact (h b (Array.mem_of_getElem? hbk) u hu).mono hk

theorem dimensions_sound (dims : List Int64) :
    ∀ (total : Nat) (done : List Nat),
      Sound (fun r => r.1.length = done.length + dims.length) (dimensions total done dims) := by
  induction dims with
  | nil =>
    intro total done
    simp [dimensions, Sound]
  | cons dim dims ih =>
    intro total done
    unfold dimensions
    by_cases hneg : dim < 0
    · rw [if_pos hneg]
      rfl
    · rw [if_neg hneg]
      dsimp only
      split
      · refine (ih _ _).imp fun r hr => ?_
        simp only [List.length_cons] at hr ⊢
        omega
      · rfl

/-- A new array has the element type and as many dimensions as it was asked for. -/
theorem new_sound (e : Element) (dims : List Int64) :
    Sound (fun a => a.element = e ∧ a.dims.length = dims.length ∧
      ∀ v ∈ a.data, v = defaultElement e) (ArrayValue.new e dims) := by
  refine (dimensions_sound dims 1 []).bind fun r hr => ⟨rfl, ?_, fun v hv => ?_⟩
  · simpa using hr
  · exact Array.eq_of_mem_replicate hv

theorem offsetFrom_sound (is : List Int64) :
    ∀ (row : Nat) (sizes : List Nat), Sound (fun _ => True) (ArrayValue.offsetFrom row is sizes) := by
  induction is with
  | nil =>
    intro row sizes
    trivial
  | cons i is ih =>
    intro row sizes
    cases sizes with
    | nil => trivial
    | cons size sizes =>
      rw [ArrayValue.offsetFrom]
      split
      · exact ih _ _
      · rfl

theorem offset_sound {a : ArrayValue} {is : List Int64} (hlen : is.length = a.dims.length) :
    Sound (fun _ => True) (a.offset is) := by
  rw [ArrayValue.offset, if_neg (not_not.mpr hlen)]
  exact offsetFrom_sound is _ _

/-- What is read at as many indices as an array has dimensions is one of its elements. -/
theorem get_sound {a : ArrayValue} {is : List Int64} (hlen : is.length = a.dims.length) :
    Sound (· ∈ a.data) (a.get is) := by
  refine (offset_sound hlen).bind fun i _ => ?_
  cases hi : a.data[i]? with
  | none => rfl
  | some v => exact Array.mem_of_getElem? hi

theorem place_sound {a : ArrayValue} {is : List Int64} (hlen : is.length = a.dims.length) :
    Sound (fun _ => True) (a.place is) := by
  refine (offset_sound hlen).bind fun i _ => ?_
  split
  · trivial
  · rfl

/-! ### Operations -/

theorem arithInt_sound (op : ArithOp) (a b : Int64) : Sound (fun _ => True) (arithInt op a b) := by
  cases op with
  | div =>
    unfold arithInt
    dsimp only
    split
    · rfl
    · trivial
  | _ => trivial

theorem arith_sound (op : ArithOp) {num : Numeric} {u : Value} (hv : HasTy as v num.toTy)
    (hu : HasTy as u num.toTy) : Sound (HasTy as · num.toTy) (arith op num v u) := by
  cases num with
  | integer =>
    obtain ⟨a, rfl⟩ := hv.exists_int (.inl rfl)
    obtain ⟨b, rfl⟩ := hu.exists_int (.inl rfl)
    exact (arithInt_sound op a b).bind fun _ _ => trivial
  | float =>
    obtain ⟨x, rfl⟩ := hv.exists_float
    obtain ⟨y, rfl⟩ := hu.exists_float
    trivial

theorem exists_holds (cond : Comparison) {num : Numeric} {t' : Ty} {u : Value}
    (ht : Compares num t) (ht' : Compares num t') (hv : HasTy as v t) (hu : HasTy as u t') :
    ∃ b, holds cond num v u = .ok b := by
  cases num with
  | integer =>
    obtain ⟨a, rfl⟩ := hv.exists_int ht
    obtain ⟨b, rfl⟩ := hu.exists_int ht'
    exact ⟨_, rfl⟩
  | float =>
    obtain rfl : t = .float := ht
    obtain rfl : t' = .float := ht'
    obtain ⟨x, rfl⟩ := hv.exists_float
    obtain ⟨y, rfl⟩ := hu.exists_float
    exact ⟨_, rfl⟩

theorem parseInt_sound (s : String) : Sound (fun _ => True) (parseInt s) := by
  unfold parseInt
  split
  · trivial
  · rfl

theorem parseFloat_sound (s : String) : Sound (fun _ => True) (parseFloat s) := by
  unfold parseFloat
  split
  · trivial
  · rfl

theorem charAt_sound (s : String) (i : Int64) : Sound (fun _ => True) (charAt s i) := by
  unfold charAt
  dsimp only
  split
  · trivial
  · rfl

/-! ### Effects -/

/-- After an effect the operands that it leaves are of the given types. -/
structure Leaves (w : World) (τ : List Ty) (r : List Value × World) : Prop where
  arrays : ArraysOk r.2.arrays
  keeps : Keeps w.arrays r.2.arrays
  operands : List.Forall₂ (HasTy r.2.arrays) r.1 τ

variable {w : World}

theorem leaves_none (hw : ArraysOk w.arrays) (c : Console) :
    Leaves w [] ([], { w with console := c }) := ⟨hw, .refl _, .nil⟩

theorem leaves_one (hw : ArraysOk w.arrays) (c : Console) (hv : HasTy w.arrays v t) :
    Leaves w [t] ([v], { w with console := c }) := ⟨hw, .refl _, .cons hv .nil⟩

theorem onConsole_sound (hw : ArraysOk w.arrays) (g : Console → Console) :
    Sound (Leaves w []) (match w.console.fault with
      | some fault => .error (.console fault)
      | none => pure ([], { w with console := g w.console })) := by
  split
  · rfl
  · exact leaves_none hw _

theorem intrinsicEffect_sound (hw : ArraysOk w.arrays) {i : Intrinsic} {σ τ : List Ty}
    (ht : i.Takes σ τ) {vs : List Value} (hvs : List.Forall₂ (HasTy w.arrays) vs σ) :
    ∃ r, intrinsicEffect w i vs = some r ∧ Sound (Leaves w τ) r := by
  cases ht with
  | print =>
    obtain _ | ⟨hv, _ | _⟩ := hvs
    obtain ⟨s, rfl⟩ := hv.exists_str
    exact ⟨_, rfl, onConsole_sound hw (·.write s)⟩
  | printLn =>
    obtain _ | ⟨hv, _ | _⟩ := hvs
    obtain ⟨s, rfl⟩ := hv.exists_str
    exact ⟨_, rfl, onConsole_sound hw (·.writeLine s)⟩
  | readLn =>
    obtain _ | _ := hvs
    refine ⟨_, rfl, ?_⟩
    split
    · exact leaves_one hw _ trivial
    · rfl
  | intToStr =>
    obtain _ | ⟨hv, _ | _⟩ := hvs
    obtain ⟨n, rfl⟩ := hv.exists_int (.inl rfl)
    exact ⟨_, rfl, leaves_one hw _ trivial⟩
  | boolToStr =>
    obtain _ | ⟨hv, _ | _⟩ := hvs
    obtain ⟨n, rfl⟩ := hv.exists_int (.inr rfl)
    exact ⟨_, rfl, leaves_one hw _ trivial⟩
  | floatToStr =>
    obtain _ | ⟨hv, _ | _⟩ := hvs
    obtain ⟨x, rfl⟩ := hv.exists_float
    exact ⟨_, rfl, leaves_one hw _ trivial⟩
  | parseInt =>
    obtain _ | ⟨hv, _ | _⟩ := hvs
    obtain ⟨s, rfl⟩ := hv.exists_str
    exact ⟨_, rfl, (parseInt_sound s).bind fun _ _ => leaves_one hw _ trivial⟩
  | parseFloat =>
    obtain _ | ⟨hv, _ | _⟩ := hvs
    obtain ⟨s, rfl⟩ := hv.exists_str
    exact ⟨_, rfl, (parseFloat_sound s).bind fun _ _ => leaves_one hw _ trivial⟩
  | strLen =>
    obtain _ | ⟨hv, _ | _⟩ := hvs
    obtain ⟨s, rfl⟩ := hv.exists_str
    exact ⟨_, rfl, leaves_one hw _ trivial⟩
  | arrayLen e rank =>
    obtain _ | ⟨hv, _ | _⟩ := hvs
    obtain ⟨ref, a, rfl, ha, _⟩ := hv.exists_array
    refine ⟨_, rfl, ?_⟩
    show Sound (Leaves w [.integer]) (do return ([lengthValue (← w.arrays.find ref).length], w))
    rw [ha]
    exact leaves_one hw _ trivial
  | charAt =>
    obtain _ | ⟨hi, _ | ⟨hv, _ | _⟩⟩ := hvs
    obtain ⟨n, rfl⟩ := hi.exists_int (.inl rfl)
    obtain ⟨s, rfl⟩ := hv.exists_str
    exact ⟨_, rfl, (charAt_sound s n).bind fun _ _ => leaves_one hw _ trivial⟩

theorem forall₂_hasTy_replicate_reverse {is : List Value} {k : Nat}
    (h : List.Forall₂ (HasTy as) is (List.replicate k .integer)) :
    ∃ ns, Value.asInts is.reverse = .ok ns ∧ ns.length = k := by
  have hrev := List.forall₂_reverse_iff.mpr h
  rw [List.reverse_replicate] at hrev
  exact asInts_of_hasTy hrev

theorem getEffect_sound (hw : ArraysOk w.arrays) {e : Element} {rank : Nat} {is : List Value}
    (his : List.Forall₂ (HasTy w.arrays) is (List.replicate rank .integer))
    (hv : HasTy w.arrays v (.array e rank)) : Sound (Leaves w [e.toTy]) (getEffect w is v) := by
  obtain ⟨ns, hns, hlen⟩ := forall₂_hasTy_replicate_reverse his
  obtain ⟨ref, a, rfl, ha, rfl, hrank⟩ := hv.exists_array
  rw [getEffect, hns]
  show Sound _ (w.arrays.find ref >>= fun a => _)
  rw [ha]
  refine (get_sound (hlen.trans hrank.symm)).bind fun u hu => leaves_one hw _ ?_
  exact hw.find ha u hu

theorem setEffect_sound (hw : ArraysOk w.arrays) {e : Element} {rank : Nat} {is : List Value}
    {u : Value} (hv : HasTy w.arrays v e.toTy)
    (his : List.Forall₂ (HasTy w.arrays) is (List.replicate rank .integer))
    (hu : HasTy w.arrays u (.array e rank)) : Sound (Leaves w []) (setEffect w v is u) := by
  obtain ⟨ns, hns, hlen⟩ := forall₂_hasTy_replicate_reverse his
  obtain ⟨ref, a, rfl, ha, rfl, hrank⟩ := hu.exists_array
  rw [setEffect, hns]
  show Sound _ ((w.arrays.find ref).bind (·.place ns) >>= fun a => _)
  rw [ha]
  refine (place_sound (hlen.trans hrank.symm)).bind fun i _ => ?_
  obtain ⟨hok, hkeeps⟩ := hw.replace ha i hv
  exact ⟨hok, hkeeps, .nil⟩

theorem newEffect_sound (hw : ArraysOk w.arrays) (e : Element) {rank : Nat} {dims : List Value}
    (hdims : List.Forall₂ (HasTy w.arrays) dims (List.replicate rank .integer)) :
    Sound (Leaves w [.array e rank]) (newEffect w e dims) := by
  obtain ⟨ns, hns, hlen⟩ := forall₂_hasTy_replicate_reverse hdims
  rw [newEffect, hns]
  refine (new_sound e ns).bind fun a ha => ?_
  obtain ⟨rfl, hrank, hdata⟩ := ha
  refine ⟨hw.push fun v hv => ?_, .push _ a, .cons ?_ .nil⟩
  · rw [hdata v hv]
    exact hasTy_defaultElement _ _
  · exact ⟨a, find_size_push _ a, rfl, hrank.trans hlen⟩

variable {p : Image} {hosts : Hosts}

theorem hostEffect_sound (hw : ArraysOk w.arrays) (hh : HostsOk p hosts) {r : HostRoutine}
    (hr : r ∈ p.hostRoutines) {args : List Value}
    (hargs : List.Forall₂ (HasTy w.arrays) args r.params) :
    ∃ e, hostEffect hosts w r args = some e ∧ Sound (Leaves w (resultTys r.returnType)) e := by
  unfold hostEffect
  cases hfind : hosts.find? r with
  | none => exact ⟨_, rfl, rfl⟩
  | some action =>
    have hok := hh r hr action hfind args w.arrays hw hargs
    dsimp only
    cases hact : action args w.arrays with
    | error e =>
      rw [hact] at hok
      obtain ⟨_, _, rfl⟩ := hok
      exact ⟨_, rfl, rfl⟩
    | ok res =>
      rw [hact] at hok
      obtain ⟨hok, hkeeps, hres⟩ := hok
      have hsome : res.1.isSome = r.returnType.isValue := by
        have hlen := hres.length_eq
        unfold resultTys at hlen
        cases hv : r.returnType.isValue <;> cases hr : res.1 <;> simp [hv, hr] at hlen ⊢
      dsimp only
      rw [if_pos hsome]
      exact ⟨_, rfl, hok, hkeeps, hres⟩

/-- An instruction that finds operands of the types that it takes leaves operands of the types that
it promises. -/
theorem effect_sound (hw : ArraysOk w.arrays) (hh : HostsOk p hosts) {i : Instr} {σ τ : List Ty}
    (ht : Takes p i σ τ) {vs : List Value} (hvs : List.Forall₂ (HasTy w.arrays) vs σ) :
    ∃ r, effect p hosts w i vs = some r ∧ Sound (Leaves w τ) r := by
  cases ht with
  | nop | label =>
    obtain _ | _ := hvs
    exact ⟨_, rfl, leaves_none hw _⟩
  | pushInt | pushFloat =>
    obtain _ | _ := hvs
    exact ⟨_, rfl, leaves_one hw _ trivial⟩
  | pushTruth b =>
    obtain _ | _ := hvs
    exact ⟨_, rfl, leaves_one hw _ (hasTy_ofBool _ b)⟩
  | pushStr hs =>
    obtain _ | _ := hvs
    rw [effect, hs]
    exact ⟨_, rfl, leaves_one hw _ trivial⟩
  | arith op num =>
    obtain _ | ⟨hb, _ | ⟨ha, _ | _⟩⟩ := hvs
    exact ⟨_, rfl, (arith_sound op ha hb).bind fun _ hv => leaves_one hw _ hv⟩
  | logic op =>
    obtain _ | ⟨hb, _ | ⟨ha, _ | _⟩⟩ := hvs
    obtain ⟨a, rfl⟩ := ha.exists_int (.inr rfl)
    obtain ⟨b, rfl⟩ := hb.exists_int (.inr rfl)
    have hsound : Sound (HasTy w.arrays · .integer) (Machine.arith op .integer (.int a) (.int b)) :=
      arith_sound (v := .int a) (u := .int b) op trivial trivial
    exact ⟨_, rfl, hsound.bind fun _ hv => leaves_one hw _ hv⟩
  | intToFloat =>
    obtain _ | ⟨hv, _ | _⟩ := hvs
    obtain ⟨n, rfl⟩ := hv.exists_int (.inl rfl)
    exact ⟨_, rfl, leaves_one hw _ trivial⟩
  | concat =>
    obtain _ | ⟨hb, _ | ⟨ha, _ | _⟩⟩ := hvs
    obtain ⟨a, rfl⟩ := ha.exists_str
    obtain ⟨b, rfl⟩ := hb.exists_str
    exact ⟨_, rfl, leaves_one hw _ trivial⟩
  | strEq =>
    obtain _ | ⟨hb, _ | ⟨ha, _ | _⟩⟩ := hvs
    obtain ⟨a, rfl⟩ := ha.exists_str
    obtain ⟨b, rfl⟩ := hb.exists_str
    exact ⟨_, rfl, leaves_one hw _ (hasTy_ofBool _ _)⟩
  | newArray e rank =>
    have hlen : vs.length = rank := by simpa using hvs.length_eq
    rw [effect, if_pos hlen]
    exact ⟨_, rfl, newEffect_sound hw e hvs⟩
  | loadElem e =>
    obtain _ | ⟨hi, _ | ⟨hv, _ | _⟩⟩ := hvs
    have his : List.Forall₂ (HasTy w.arrays) [_] (List.replicate 1 .integer) := .cons hi .nil
    exact ⟨_, rfl, getEffect_sound hw his hv⟩
  | storeElem e =>
    obtain _ | ⟨hv, _ | ⟨hi, _ | ⟨hu, _ | _⟩⟩⟩ := hvs
    have his : List.Forall₂ (HasTy w.arrays) [_] (List.replicate 1 .integer) := .cons hi .nil
    exact ⟨_, rfl, setEffect_sound hw hv his hu⟩
  | arrayGet e rank =>
    obtain ⟨is, us, rfl, his, hus⟩ := forall₂_append_right hvs
    obtain _ | ⟨hv, _ | _⟩ := hus
    have hlen : is.length = rank := by simpa using his.length_eq
    rw [effect, List.drop_left' hlen, List.take_left' hlen]
    exact ⟨_, rfl, getEffect_sound hw his hv⟩
  | arraySet e rank =>
    cases hvs with
    | cons hv hrest =>
      obtain ⟨is, us, rfl, his, hus⟩ := forall₂_append_right hrest
      obtain _ | ⟨hu, _ | _⟩ := hus
      have hlen : is.length = rank := by simpa using his.length_eq
      rw [effect, List.drop_left' hlen, List.take_left' hlen]
      exact ⟨_, rfl, setEffect_sound hw hv his hu⟩
  | @callHost routine r hr =>
    have hargs : List.Forall₂ (HasTy w.arrays) vs.reverse r.params := by
      rw [← List.reverse_reverse r.params]
      exact List.forall₂_reverse_iff.mpr hvs
    have hlen : vs.length = r.arity := by simpa [HostRoutine.arity] using hargs.length_eq
    rw [effect, hr]
    dsimp only
    rw [if_pos hlen]
    exact hostEffect_sound hw hh (Array.mem_of_getElem? hr) hargs
  | intrinsic hi => exact intrinsicEffect_sound hw hi hvs
  | pop =>
    obtain _ | ⟨_, _ | _⟩ := hvs
    exact ⟨_, rfl, leaves_none hw _⟩

end

end Quill.Machine
