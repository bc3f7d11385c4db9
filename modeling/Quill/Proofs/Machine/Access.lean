import Quill.Proofs.Machine.Arrays
import Quill.Proofs.Machine.Isolation
import Quill.Wire.File

/-! # Accesses to arrays

Nothing checks at run time that an array has as many elements as its dimensions promise; accesses
rely on it.  A state is `Intact` when the arrays of its heap are full and every reference in it
means a full array.  From an intact state every action of the machine leads to one, and it does not
end in the fault of a missing element (`Tame`).  There is one way to break this: the array that a
variable of rank zero starts with promises one element and has none.

`arrays_safe_iff` puts this together: whatever the image, its runs keep all arrays full exactly when
no method with code declares a variable of rank zero. -/

namespace Quill.Machine

open Code

/-! ### Intact states -/

/-- The variables of a frame refer to full arrays. -/
def Frame.Fits (count : Nat) (f : Frame) : Prop :=
  (∀ v ∈ f.args, v.Fits count) ∧ ∀ v ∈ f.locals, v.Fits count

/-- The arrays are full, and every operand and every variable refers to a full array. -/
structure Intact (s : State) : Prop where
  arrays : AllFull s.heap.arrays
  stack : ∀ v ∈ s.stack, v.Fits s.heap.arrays.size
  frames : ∀ f ∈ s.frames, f.Fits s.heap.arrays.size

namespace Intact

variable {s : State} (h : Intact s)
include h

theorem frame : s.frame.Fits s.heap.arrays.size := h.frames _ (List.mem_cons_self ..)

theorem withStack {stack : Array Value} (hv : ∀ v ∈ stack, v.Fits s.heap.arrays.size) :
    Intact { s with stack } :=
  ⟨h.arrays, hv, h.frames⟩

theorem withFrame {frame : Frame} (hf : frame.Fits s.heap.arrays.size) :
    Intact { s with frame } := by
  refine ⟨h.arrays, h.stack, fun f hmem => ?_⟩
  rcases List.mem_cons.mp hmem with rfl | hmem
  · exact hf
  · exact h.frames f (List.mem_cons_of_mem _ hmem)

theorem withConsole (console : Console) : Intact { s with console } :=
  ⟨h.arrays, h.stack, h.frames⟩

/-- More arrays, or changed ones, do no harm to the references. -/
theorem withArrays {arrays : Arrays} (hs : AllFull arrays)
    (hle : s.heap.arrays.size ≤ arrays.size) :
    Intact { s with heap := { s.heap with arrays } } := by
  refine ⟨hs, fun v hv => (h.stack v hv).mono hle, fun f hf => ?_⟩
  obtain ⟨hargs, hlocals⟩ := h.frames f hf
  exact ⟨fun v hv => (hargs v hv).mono hle, fun v hv => (hlocals v hv).mono hle⟩

theorem next : Intact s.next := h.withFrame h.frame

end Intact

/-! ### Host routines -/

/-- The array has the shape of one that is made with some dimensions. -/
def ArrayValue.Shaped (a : ArrayValue) : Prop :=
  ∃ element dims b, ArrayValue.new element dims = .ok b ∧ a.dims = b.dims ∧
    a.data.size = b.data.size

theorem ArrayValue.Shaped.full {a : ArrayValue} (h : a.Shaped) : a.Full := by
  obtain ⟨element, dims, b, hb, hdims, hsize⟩ := h
  unfold Full
  rw [hdims, hsize]
  exact full_new hb

/-- A routine that does not alter how arrays are built: those that it is given keep their dimensions
and their number of elements, those that it makes have the shape that dimensions give, its values
refer to arrays that there are, and it does not look for elements that an array lacks. -/
structure HostAction.Gentle (action : HostAction) : Prop where
  result : ∀ {args as result as'}, (∀ v ∈ args, v.Fits as.size) →
    (∀ a ∈ as, ∀ v ∈ a.data, v.Fits as.size) → action args as = .ok (result, as') →
    (∀ v, result = some v → v.Fits as'.size) ∧ ∀ a ∈ as', ∀ v ∈ a.data, v.Fits as'.size
  old : ∀ {args as result as'}, action args as = .ok (result, as') → ∀ (k : Nat) a,
    as[k]? = some a → ∃ a', as'[k]? = some a' ∧ a'.dims = a.dims ∧ a'.data.size = a.data.size
  new : ∀ {args as result as'}, action args as = .ok (result, as') → ∀ (k : Nat) a,
    as[k]? = none → as'[k]? = some a → a.Shaped
  fault : ∀ {args as e}, action args as = .error e → e.isMissing = false

def Hosts.Gentle (hosts : Hosts) : Prop :=
  ∀ r action, hosts.find? r = some action → action.Gentle

theorem HostAction.Gentle.size_le {action : HostAction} (h : action.Gentle) {args : List Value}
    {as as' : Arrays} {result : Option Value} (hact : action args as = .ok (result, as')) :
    as.size ≤ as'.size := by
  by_contra hlt
  have hk : as'.size < as.size := Nat.lt_of_not_le hlt
  obtain ⟨a', ha', _⟩ := h.old hact as'.size _ (Array.getElem?_eq_getElem hk)
  rw [Array.getElem?_eq_none (Nat.le_refl _)] at ha'
  cases ha'

theorem HostAction.Gentle.allFull {action : HostAction} (h : action.Gentle) {args : List Value}
    {as as' : Arrays} {result : Option Value} (hargs : ∀ v ∈ args, v.Fits as.size)
    (has : AllFull as) (hact : action args as = .ok (result, as')) : AllFull as' := by
  intro a' ha'
  refine ⟨?_, (h.result hargs (fun a ha => (has a ha).2) hact).2 a' ha'⟩
  obtain ⟨k, hk, hka⟩ := Array.mem_iff_getElem.mp ha'
  have hget : as'[k]? = some a' := Array.getElem?_eq_some_iff.mpr ⟨hk, hka⟩
  cases hold : as[k]? with
  | none => exact (h.new hact k a' hold hget).full
  | some a =>
    obtain ⟨b, hb, hdims, hsize⟩ := h.old hact k a hold
    cases hget.symm.trans hb
    unfold ArrayValue.Full
    rw [hdims, hsize]
    exact (has a (Array.mem_of_getElem? hold)).1

/-- A routine that leaves the arrays alone and gives no reference is gentle. -/
theorem gentle_of_unchanged {action : HostAction}
    (hok : ∀ {args as result as'}, action args as = .ok (result, as') →
      as' = as ∧ ∀ v, result = some v → ∀ n, v.Fits n)
    (hplain : ∀ args as, Plain (action args as)) : action.Gentle where
  result hargs has hact := by
    obtain ⟨rfl, hres⟩ := hok hact
    exact ⟨fun v hv => hres v hv _, has⟩
  old hact k a ha := by
    obtain ⟨rfl, _⟩ := hok hact
    exact ⟨a, ha, rfl, rfl⟩
  new hact k a hnone ha := by
    obtain ⟨rfl, _⟩ := hok hact
    rw [hnone] at ha
    cases ha
  fault he := Fault.isMissing_of_isPlain (hplain _ _ _ he)

theorem gentle_integerAction (g : Int64 → Int64) : (integerAction g).Gentle := by
  refine gentle_of_unchanged (fun {args as result as'} h => ?_) (plain_integerAction g)
  cases args with
  | nil =>
    obtain ⟨rfl, rfl⟩ := Prod.mk.inj (Except.ok.inj h)
    exact ⟨rfl, fun v hv => by cases hv⟩
  | cons w args =>
    cases w with
    | int n =>
      obtain ⟨rfl, rfl⟩ := Prod.mk.inj (Except.ok.inj h)
      refine ⟨rfl, fun v hv n => ?_⟩
      cases hv
      trivial
    | _ => cases h

theorem gentle_floatAction (g : Float → Float) : (floatAction g).Gentle := by
  refine gentle_of_unchanged (fun {args as result as'} h => ?_) (plain_floatAction g)
  cases args with
  | nil =>
    obtain ⟨rfl, rfl⟩ := Prod.mk.inj (Except.ok.inj h)
    exact ⟨rfl, fun v hv => by cases hv⟩
  | cons w args =>
    cases w with
    | float x =>
      obtain ⟨rfl, rfl⟩ := Prod.mk.inj (Except.ok.inj h)
      refine ⟨rfl, fun v hv n => ?_⟩
      cases hv
      trivial
    | _ => cases h

theorem gentle_floatAction₂ (g : Float → Float → Float) : (floatAction₂ g).Gentle := by
  refine gentle_of_unchanged (fun {args as result as'} h => ?_) (plain_floatAction₂ g)
  rcases args with _ | ⟨w, _ | ⟨w', args⟩⟩
  · obtain ⟨rfl, rfl⟩ := Prod.mk.inj (Except.ok.inj h)
    exact ⟨rfl, fun v hv => by cases hv⟩
  · obtain ⟨rfl, rfl⟩ := Prod.mk.inj (Except.ok.inj h)
    exact ⟨rfl, fun v hv => by cases hv⟩
  · cases w with
    | float x =>
      cases w' with
      | float y =>
        obtain ⟨rfl, rfl⟩ := Prod.mk.inj (Except.ok.inj h)
        refine ⟨rfl, fun v hv n => ?_⟩
        cases hv
        trivial
      | _ => cases h
    | _ => cases h

theorem gentle_standard : Hosts.standard.Gentle := by
  intro r action h
  rcases standard_cases h with ⟨g, rfl⟩ | ⟨g, rfl⟩ | ⟨g, rfl⟩
  · exact gentle_integerAction g
  · exact gentle_floatAction g
  · exact gentle_floatAction₂ g

/-! ### Actions -/

theorem mem_of_mem_pop {xs : Array Value} {v : Value} (h : v ∈ xs.pop) : v ∈ xs := by
  rw [← Array.mem_toList_iff, Array.toList_pop] at h
  exact Array.mem_toList_iff.mp (List.dropLast_subset _ h)

section

variable {α β : Type}

/-- The state is intact, and a fault is not that of a missing element. -/
def Ends : EStateM.Result Fault State α → Prop
  | .ok _ s => Intact s
  | .error e s => Intact s ∧ e.isMissing = false

/-- From an intact state with these arrays the action leads to an intact state, and it does not miss
an element. -/
def Tame (as : Arrays) (x : Action α) : Prop :=
  ∀ s, Intact s → s.heap.arrays = as → Ends (x s)

variable {as : Arrays} {m : Method}

namespace Tame

theorem pop {g : Value → Action α} (h : ∀ v, v.Fits as.size → Tame as (g v)) :
    Tame as (pop m >>= g) := by
  rintro s hs rfl
  rw [bind_run]
  unfold Machine.pop
  by_cases hbase : s.stack.size ≤ s.frame.base
  · rw [if_pos hbase]
    exact ⟨hs, rfl⟩
  · rw [if_neg hbase]
    cases hback : s.stack.back? with
    | none => exact ⟨hs, rfl⟩
    | some v =>
      refine h v (hs.stack v (Array.mem_of_back? hback)) _ (hs.withStack fun w hw => ?_) rfl
      exact hs.stack w (mem_of_mem_pop hw)

theorem popMany {g : List Value → Action α} (count : Nat)
    (h : ∀ vs, (∀ v ∈ vs, v.Fits as.size) → Tame as (g vs)) :
    Tame as (popMany m count >>= g) := by
  rintro s hs rfl
  rw [bind_run]
  unfold Machine.popMany
  by_cases hsize : s.stack.size < s.frame.base + count
  · rw [if_pos hsize]
    exact ⟨hs, rfl⟩
  · rw [if_neg hsize]
    refine h _ (fun v hv => ?_) _ (hs.withStack fun w hw => ?_) rfl
    · obtain ⟨k, hk, rfl⟩ := Array.mem_extract_iff_getElem.mp (Array.mem_toList_iff.mp hv)
      exact hs.stack _ (Array.getElem_mem _)
    · rw [← Array.mem_toList_iff, Array.toList_shrink] at hw
      exact hs.stack w (Array.mem_toList_iff.mp (List.mem_of_mem_take hw))

theorem ofExcept {r : Except Fault α} (hr : Plain r) {g : α → Action β}
    (h : ∀ a, r = .ok a → Tame as (g a)) : Tame as (ofExcept r >>= g) := by
  intro s hs has
  cases r with
  | ok a => exact h a rfl s hs has
  | error e => exact ⟨hs, Fault.isMissing_of_isPlain (hr e rfl)⟩

theorem ofOption {r : Option α} {e : Fault} (he : e.isMissing = false) {g : α → Action β}
    (h : ∀ a, r = some a → Tame as (g a)) : Tame as (ofOption r e >>= g) := by
  intro s hs has
  cases r with
  | some a => exact h a rfl s hs has
  | none => exact ⟨hs, he⟩

theorem popInt {g : Int64 → Action α} (h : ∀ k, Tame as (g k)) : Tame as (popInt m >>= g) := by
  rw [Machine.popInt, bind_assoc]
  exact .pop fun v _ => .ofExcept (plain_asInt v) fun k _ => h k

theorem popStr {g : String → Action α} (h : ∀ s, Tame as (g s)) : Tame as (popStr m >>= g) := by
  rw [Machine.popStr, bind_assoc]
  exact .pop fun v _ => .ofExcept (plain_asStr v) fun s _ => h s

theorem popInts {g : List Int64 → Action α} (count : Nat) (h : ∀ ks, Tame as (g ks)) :
    Tame as (popInts m count >>= g) := by
  rw [Machine.popInts, bind_assoc]
  exact .popMany count fun vs _ => .ofExcept (plain_asInts vs) fun ks _ => h ks

theorem arrayOf {v : Value} (hv : v.Fits as.size) {g : ArrayValue → Action α}
    (h : ∀ a, a.Full → (∀ w ∈ a.data, w.Fits as.size) → Tame as (g a)) :
    Tame as (arrayOf v >>= g) := by
  rintro s hs rfl
  rw [bind_run]
  cases v with
  | array ref =>
    obtain ⟨a, ha, hfull, hfits⟩ := hs.arrays.find hv
    have hrun : Machine.arrayOf (.array ref) s = .ok a s := by
      unfold Machine.arrayOf
      dsimp only [bind, EStateM.bind, Machine.ofExcept, Value.asArray]
      rw [ha]
    rw [hrun]
    exact h a hfull hfits s hs rfl
  | _ => exact ⟨hs, rfl⟩

/-! The last parts of instructions. -/

theorem pure (a : α) : Tame as (Pure.pure a) := fun _ hs _ => hs

theorem push {v : Value} (hv : v.Fits as.size) : Tame as (push v) := by
  rintro s hs rfl
  refine hs.withStack fun w hw => ?_
  rcases Array.mem_push.mp hw with hw | rfl
  · exact hs.stack w hw
  · exact hv

theorem jump (label : Nat) : Tame as (jump m label) :=
  .ofOption rfl fun _ _ _ hs _ => hs.withFrame hs.frame

theorem onConsole (f : Console → Console) : Tame as (onConsole f) := by
  intro s hs _
  unfold Machine.onConsole
  cases s.console.fault with
  | some fault => exact ⟨hs, rfl⟩
  | none => exact hs.withConsole _

theorem readLine {g : String → Action α} (h : ∀ line, Tame as (g line)) :
    Tame as (readLine >>= g) := by
  intro s hs has
  rw [bind_run]
  unfold Machine.readLine
  cases s.console.readLine with
  | error message => exact ⟨hs, rfl⟩
  | ok r => exact h _ _ (hs.withConsole _) has

theorem loadArg (slot : Nat) : Tame as (loadArg slot) := by
  rintro s hs rfl
  unfold Machine.loadArg
  split
  · next v hv => exact Tame.push (hs.frame.1 v (Array.mem_of_getElem? hv)) s hs rfl
  · exact ⟨hs, rfl⟩

theorem loadLocal (slot : Nat) : Tame as (loadLocal slot) := by
  rintro s hs rfl
  unfold Machine.loadLocal
  split
  · next v hv => exact Tame.push (hs.frame.2 v (Array.mem_of_getElem? hv)) s hs rfl
  · exact ⟨hs, rfl⟩

theorem storeArg (slot : Nat) {v : Value} (hv : v.Fits as.size) : Tame as (storeArg slot v) := by
  rintro s hs rfl
  unfold Machine.storeArg
  split
  · refine hs.withFrame ⟨fun w hw => ?_, hs.frame.2⟩
    rcases Array.mem_or_eq_of_mem_setIfInBounds hw with hw | rfl
    · exact hs.frame.1 w hw
    · exact hv
  · exact ⟨hs, rfl⟩

theorem storeLocal (slot : Nat) {v : Value} (hv : v.Fits as.size) :
    Tame as (storeLocal slot v) := by
  rintro s hs rfl
  unfold Machine.storeLocal
  split
  · refine hs.withFrame ⟨hs.frame.1, fun w hw => ?_⟩
    rcases Array.mem_or_eq_of_mem_setIfInBounds hw with hw | rfl
    · exact hs.frame.2 w hw
    · exact hv
  · exact ⟨hs, rfl⟩

theorem arrayGet (rank : Nat) : Tame as (arrayGet m rank) :=
  .popInts rank fun indices => .pop fun _ hv => .arrayOf hv fun _ hfull hfits =>
    .ofExcept (hfull.plain_get indices) fun _ hw => .push (hfits _ (ArrayValue.get_mem hw))

theorem arraySet (rank : Nat) : Tame as (arraySet m rank) := by
  refine .pop fun v hv => .popInts rank fun indices => .pop fun u hu =>
    .ofExcept (plain_asArray u) fun ref href => ?_
  obtain rfl : u = .array ref := by
    cases u with
    | array ref' => exact congrArg Value.array (Except.ok.inj href)
    | _ => cases href
  rintro s hs rfl
  obtain ⟨a, ha, hfull, _⟩ := hs.arrays.find hu
  have hplace : (s.heap.arrays.find ref).bind (·.place indices) = a.place indices := by
    rw [ha]
    rfl
  dsimp only
  rw [hplace]
  cases hi : a.place indices with
  | error e => exact ⟨hs, Fault.isMissing_of_isPlain (hfull.plain_place indices e hi)⟩
  | ok i => exact hs.withArrays (hs.arrays.replace hv ref i) (Nat.le_of_eq (size_replace ..).symm)

theorem newArray (element : Element) (rank : Nat) : Tame as (newArray m element rank) := by
  refine .popInts rank fun dims => .ofExcept (plain_new element dims) fun a ha => ?_
  rintro s hs rfl
  have hfull : AllFull (s.heap.arrays.push a) := by
    refine hs.arrays.push (ArrayValue.full_new ha) fun v hv => ?_
    rw [ArrayValue.mem_new ha hv]
    exact defaultElement_fits _ element
  have hle : s.heap.arrays.size ≤ (s.heap.arrays.push a).size := by simp
  have hfits : (Value.array (.made s.heap.arrays.size)).Fits (s.heap.arrays.push a).size := by
    show s.heap.arrays.size < (s.heap.arrays.push a).size
    simp
  exact Tame.push hfits _ (hs.withArrays hfull hle) rfl

theorem hostResult (r : HostRoutine) {result : Option Value}
    (h : ∀ v, result = some v → v.Fits as.size) : Tame as (hostResult r result) := by
  unfold Machine.hostResult
  split
  · exact .push (h _ rfl)
  · exact .pure ()
  · exact fun _ hs _ => ⟨hs, rfl⟩
  · exact fun _ hs _ => ⟨hs, rfl⟩

theorem callHost {hosts : Hosts} (hg : hosts.Gentle) (p : Image) (routine : Nat) :
    Tame as (callHost p hosts m routine) := by
  refine .ofOption rfl fun r _ => .popMany r.arity fun args hargs =>
    .ofOption rfl fun action haction => ?_
  have hgentle := hg r action haction
  rintro s hs rfl
  rw [bind_run]
  unfold onArrays
  cases hact : action args s.heap.arrays with
  | error e => exact ⟨hs, hgentle.fault hact⟩
  | ok res =>
    obtain ⟨result, as'⟩ := res
    have hres := (hgentle.result hargs (fun a ha => (hs.arrays a ha).2) hact).1
    exact Tame.hostResult r hres _
      (hs.withArrays (hgentle.allFull hargs hs.arrays hact) (hgentle.size_le hact)) rfl

theorem intrinsic (i : Intrinsic) : Tame as (intrinsic m i) := by
  cases i with
  | print | printLn => exact .popStr fun _ => .onConsole _
  | readLn => exact .readLine fun _ => .push trivial
  | intToStr | boolToStr => exact .popInt fun _ => .push trivial
  | floatToStr => exact .pop fun v _ => .ofExcept (plain_asFloat v) fun _ _ => .push trivial
  | parseInt => exact .popStr fun s => .ofExcept (plain_parseInt s) fun _ _ => .push trivial
  | parseFloat => exact .popStr fun s => .ofExcept (plain_parseFloat s) fun _ _ => .push trivial
  | strLen => exact .popStr fun _ => .push trivial
  | arrayLen => exact .pop fun _ hv => .arrayOf hv fun _ _ _ => .push trivial
  | charAt =>
    exact .popInt fun index => .popStr fun s => .ofExcept (plain_charAt s index) fun _ _ =>
      .push trivial

end Tame

/-! ### Calls -/

/-- The image declares no variable of rank zero. -/
def Ranked (p : Image) : Prop :=
  ∀ m ∈ p.methods, m.host = none → ∀ l ∈ m.locals, ∀ element, l.ty ≠ .array element 0

/-- A variable starts with an array that is full, unless its rank is zero. -/
theorem initial_fits {ty : Ty} (h : ∀ element, ty ≠ .array element 0) (heap : Heap) (count : Nat) :
    (heap.initial ty).1.Fits count := by
  cases ty with
  | array element rank =>
    intro hrank
    exact h element (congrArg (Ty.array element) hrank)
  | _ => trivial

theorem initialLocals_fits {count : Nat} {ls : List Local}
    (h : ∀ l ∈ ls, ∀ element, l.ty ≠ .array element 0) :
    ∀ (heap : Heap) {done : Array Value}, (∀ v ∈ done, v.Fits count) →
      ∀ v ∈ (initialLocals heap done ls).1, v.Fits count := by
  induction ls with
  | nil => exact fun _ _ hdone => hdone
  | cons l ls ih =>
    obtain ⟨hl, hls⟩ := List.forall_mem_cons.mp h
    intro heap done hdone
    rw [initialLocals]
    refine ih hls _ fun v hv => ?_
    rcases Array.mem_push.mp hv with hv | rfl
    · exact hdone v hv
    · exact initial_fits hl heap count

/-- Every variable of an array type starts with an array of its own. -/
theorem mem_initialLocals {element : Element} {rank : Nat} {ls : List Local} :
    ∀ (heap : Heap) (done : Array Value),
      ((∃ id, Value.array (.empty element rank id) ∈ done) ∨
        ∃ l ∈ ls, l.ty = .array element rank) →
      ∃ id, Value.array (.empty element rank id) ∈ (initialLocals heap done ls).1 := by
  induction ls with
  | nil =>
    rintro heap done (hdone | ⟨l, hl, _⟩)
    · exact hdone
    · cases hl
  | cons l ls ih =>
    intro heap done h
    rw [initialLocals]
    refine ih _ _ ?_
    rcases h with ⟨id, hid⟩ | ⟨l', hl', hty⟩
    · exact .inl ⟨id, Array.mem_push_of_mem _ hid⟩
    · rcases List.mem_cons.mp hl' with rfl | hl'
      · rw [hty]
        exact .inl ⟨heap.empties, Array.mem_push_self⟩
      · exact .inr ⟨l', hl', hty⟩

variable {p : Image}

/-- The frame of a call refers to full arrays when its arguments do. -/
theorem newFrame_fits (hp : Ranked p) {id argc : Nat} {c : Method} (hc : callee p id argc = .ok c)
    {heap : Heap} {args : List Value} (hargs : ∀ v ∈ args, v.Fits heap.arrays.size) (height : Nat) :
    (newFrame c heap height id args).1.Fits heap.arrays.size ∧
      (newFrame c heap height id args).2.arrays = heap.arrays := by
  obtain ⟨hm, hhost⟩ := callee_spec hc
  rw [newFrame_eq]
  refine ⟨⟨fun v hv => hargs v (List.mem_toArray.mp hv), ?_⟩, rfl⟩
  refine initialLocals_fits (fun l hl => ?_) _ fun v hv => absurd hv (Array.not_mem_empty v)
  exact hp c (Array.mem_of_getElem? hm) hhost l (Array.mem_toList_iff.mp hl)

theorem Tame.enter (hp : Ranked p) (method : Nat) {args : List Value}
    (hargs : ∀ v ∈ args, v.Fits as.size) : Tame as (enter p method args) := by
  rintro s hs rfl
  unfold Machine.enter
  cases hc : callee p method args.length with
  | error e => exact ⟨hs, Fault.isMissing_of_isPlain (plain_callee _ _ _ e hc)⟩
  | ok c =>
    obtain ⟨hframe, harrays⟩ := newFrame_fits hp hc hargs s.stack.size
    dsimp only
    generalize newFrame c s.heap s.stack.size method args = r at hframe harrays
    refine ⟨?_, fun v hv => ?_, fun f hf => ?_⟩
    · show AllFull r.2.arrays
      rw [harrays]
      exact hs.arrays
    · show v.Fits r.2.arrays.size
      rw [harrays]
      exact hs.stack v hv
    · show f.Fits r.2.arrays.size
      rw [harrays]
      rcases List.mem_cons.mp hf with rfl | hf
      · exact hframe
      · exact hs.frames f hf

theorem arith_fits {op : ArithOp} {ty : Numeric} {lhs rhs v : Value}
    (h : arith op ty lhs rhs = .ok v) (count : Nat) : v.Fits count := by
  cases ty with
  | integer =>
    cases lhs with
    | int a =>
      cases rhs with
      | int b =>
        cases hr : arithInt op a b with
        | error e =>
          change (do return Value.int (← arithInt op a b)) = _ at h
          rw [hr] at h
          cases h
        | ok k =>
          change (do return Value.int (← arithInt op a b)) = _ at h
          rw [hr] at h
          cases h
          trivial
      | _ => cases h
    | _ => cases h
  | float =>
    cases lhs with
    | float a =>
      cases rhs with
      | float b =>
        cases h
        trivial
      | _ => cases h
    | _ => cases h

/-- No instruction misses an element of an array. -/
theorem step_tame {hosts : Hosts} (hp : Ranked p) (hg : hosts.Gentle) (i : Instr) :
    Tame as (step p hosts m i) := by
  cases i with
  | nop | label => exact .pure ()
  | pushInt | pushFloat => exact .push trivial
  | pushStr => exact .ofOption rfl fun _ _ => .push trivial
  | loadArg slot => exact .loadArg slot
  | loadLocal slot => exact .loadLocal slot
  | storeArg slot => exact .pop fun _ hv => .storeArg slot hv
  | storeLocal slot => exact .pop fun _ hv => .storeLocal slot hv
  | arith op ty =>
    exact .pop fun rhs _ => .pop fun lhs _ => .ofExcept (plain_arith op ty lhs rhs) fun _ hv =>
      .push (arith_fits hv _)
  | intToFloat => exact .popInt fun _ => .push trivial
  | concat | strEq =>
    exact .pop fun rhs _ => .pop fun lhs _ => .ofExcept (plain_asStr lhs) fun _ _ =>
      .ofExcept (plain_asStr rhs) fun _ _ => .push trivial
  | branchCmp cond ty target =>
    refine .pop fun rhs _ => .pop fun lhs _ => .ofExcept (plain_holds cond ty lhs rhs)
      fun truth _ => ?_
    cases truth with
    | true => exact .jump target
    | false => exact .pure ()
  | branchIfTrue target =>
    refine .popInt fun k => ?_
    split
    · exact .jump target
    · exact .pure ()
  | jump target => exact .jump target
  | newArray element rank => exact .newArray element rank
  | loadElem => exact .arrayGet 1
  | storeElem => exact .arraySet 1
  | arrayGet rank => exact .arrayGet rank
  | arraySet rank => exact .arraySet rank
  | call id argc => exact .popMany argc fun _ hvs => .enter hp id hvs
  | callHost routine => exact .callHost hg p routine
  | intrinsic i => exact .intrinsic i
  | pop => exact .pop fun _ _ => .pure ()
  | ret => exact fun _ hs _ => ⟨hs, rfl⟩

theorem leave_ends {s : State} (hs : Intact s) : Ends (leave m s) := by
  unfold leave
  dsimp only
  by_cases hdepth : s.stack.size - s.frame.base ≠ if m.returnsValue then 1 else 0
  · rw [if_pos hdepth]
    exact ⟨hs, rfl⟩
  · rw [if_neg hdepth]
    cases hcallers : s.callers with
    | nil =>
      refine ⟨hs.arrays, fun v hv => ?_, fun f hf => hs.frames f ?_⟩
      · dsimp only at hv
        split at hv
        · exact hs.stack v (mem_of_mem_pop hv)
        · exact hs.stack v hv
      · rw [State.frames, hcallers]
        exact hf
    | cons f cs =>
      refine ⟨hs.arrays, hs.stack, fun g hg => hs.frames g ?_⟩
      rw [State.frames, hcallers]
      exact List.mem_cons_of_mem _ hg

end

/-! ### Runs -/

section

variable {σ : Type} {u : Setup} {o : Observer σ}

/-- An end that is not that of a missing element. -/
def Outcome.NotMissing (outcome : Outcome) : Prop := ∀ e, outcome = .error e → e.isMissing = false

theorem intact_advance (hp : Ranked u.image) (hg : u.hosts.Gentle) {r : Run σ}
    (h : Intact r.state) : (advance u o r).Holds (fun r => Intact r.state)
      fun outcome r => Intact r.state ∧ Outcome.NotMissing outcome := by
  have hfault : ∀ {e : Fault}, e.isMissing = false → Outcome.NotMissing (.error e) := by
    intro e he e' heq
    cases heq
    exact he
  obtain ⟨s, steps, seen⟩ := r
  cases hm : u.image.methods[s.frame.method]? with
  | none =>
    unfold advance
    dsimp only
    rw [hm]
    exact ⟨h, hfault rfl⟩
  | some m =>
    cases hi : m.code[s.frame.pc]? with
    | none =>
      unfold advance
      dsimp only
      rw [hm]
      dsimp only
      rw [hi]
      exact ⟨h, hfault rfl⟩
    | some i =>
      cases hlim : u.exceeded (steps + 1) with
      | some limit =>
        rw [advance_exceeded hm hi hlim]
        exact ⟨h, hfault rfl⟩
      | none =>
        by_cases hret : i = .ret
        · subst hret
          rw [advance_ret hm hi hlim]
          have hends : Ends (leave m s.next) := leave_ends (Intact.next h)
          generalize leave m s.next = res at hends
          match res, hends with
          | .ok (some result) s', hs' => exact ⟨hs', fun e he => by cases he⟩
          | .ok none s', hs' => exact hs'
          | .error e s', hs' => exact ⟨hs'.1, hfault hs'.2⟩
        · rw [advance_step hm hi hlim hret]
          have hends : Ends (step u.image u.hosts m i s.next) :=
            step_tame hp hg i s.next (Intact.next h) rfl
          generalize step u.image u.hosts m i s.next = res at hends
          match res, hends with
          | .ok a s', hs' => exact hs'
          | .error e s', hs' => exact ⟨hs'.1, hfault hs'.2⟩

/-- A run of a method begins so: with a heap of full arrays, and arguments that refer to them. -/
def Begins (p : Image) (s : State) : Prop :=
  ∃ heap console method args, start p heap console method args = .ok s ∧ AllFull heap.arrays ∧
    ∀ v ∈ args, v.Fits heap.arrays.size

theorem Begins.intact {p : Image} (hp : Ranked p) {s : State} (h : Begins p s) : Intact s := by
  obtain ⟨heap, console, method, args, hs, hfull, hargs⟩ := h
  unfold start at hs
  cases hc : callee p method args.length with
  | error e =>
    rw [hc] at hs
    cases hs
  | ok c =>
    rw [hc] at hs
    obtain ⟨hframe, harrays⟩ := newFrame_fits hp hc hargs 0
    dsimp only at hs
    generalize newFrame c heap 0 method args = r at hframe harrays hs
    cases hs
    refine ⟨?_, fun v hv => absurd hv (Array.not_mem_empty v), fun f hf => ?_⟩
    · show AllFull r.2.arrays
      rw [harrays]
      exact hfull
    · obtain rfl := List.mem_singleton.mp hf
      show r.1.Fits r.2.arrays.size
      rw [harrays]
      exact hframe

end

/-! ### Arrays at hand -/

/-- The values that a state has at hand: its operands, the variables of its frames, and the elements
of the arrays at hand. -/
inductive State.Reaches (s : State) : Value → Prop
  | operand {v : Value} (hv : v ∈ s.stack) : s.Reaches v
  | argument {f : Frame} {v : Value} (hf : f ∈ s.frames) (hv : v ∈ f.args) : s.Reaches v
  | localVar {f : Frame} {v : Value} (hf : f ∈ s.frames) (hv : v ∈ f.locals) : s.Reaches v
  | element {ref : Ref} {a : ArrayValue} {v : Value} (hr : s.Reaches (.array ref))
      (ha : s.heap.arrays.find ref = .ok a) (hv : v ∈ a.data) : s.Reaches v

/-- The array is full; so positions are those of elements, and neither reading nor setting an
element misses one. -/
structure ArrayValue.Safe (a : ArrayValue) : Prop where
  full : a.data.size = a.dims.prod
  offset : ∀ indices i, a.offset indices = .ok i → i < a.data.size
  get : ∀ indices e, a.get indices = .error e → e.isMissing = false
  set : ∀ indices v e, a.set indices v = .error e → e.isMissing = false

/-- Every array at hand is there and safe. -/
def State.Safe (s : State) : Prop :=
  ∀ ref, s.Reaches (.array ref) → ∃ a, s.heap.arrays.find ref = .ok a ∧ a.Safe

theorem ArrayValue.Full.safe {a : ArrayValue} (h : a.Full) : a.Safe where
  full := h
  offset _ _ ho := h.offset_lt ho
  get indices e he := Fault.isMissing_of_isPlain (h.plain_get indices e he)
  set indices v e he := by
    have hplain : Plain (a.set indices v) := (h.plain_place indices).bind fun _ => .ok _
    exact Fault.isMissing_of_isPlain (hplain e he)

theorem Intact.fits {s : State} (h : Intact s) {v : Value} (hv : s.Reaches v) :
    v.Fits s.heap.arrays.size := by
  induction hv with
  | operand hv => exact h.stack _ hv
  | argument hf hv => exact (h.frames _ hf).1 _ hv
  | localVar hf hv => exact (h.frames _ hf).2 _ hv
  | element _ ha hv ih =>
    obtain ⟨b, hb, _, hfits⟩ := h.arrays.find ih
    cases ha.symm.trans hb
    exact hfits _ hv

theorem Intact.safe {s : State} (h : Intact s) : s.Safe := by
  intro ref hr
  obtain ⟨a, ha, hfull, _⟩ := h.arrays.find (h.fits hr)
  exact ⟨a, ha, hfull.safe⟩

/-- A method with a variable of rank zero begins with an array that is not full. -/
theorem exists_not_safe {p : Image} {m : Method} (hm : m ∈ p.methods) (hhost : m.host = none)
    {l : Local} (hl : l ∈ m.locals) {element : Element} (hty : l.ty = .array element 0) :
    ∃ s, Begins p s ∧ ¬ s.Safe := by
  obtain ⟨id, hid, hget⟩ := Array.mem_iff_getElem.mp hm
  have hcallee : callee p id (List.replicate m.arity (Value.int 0)).length = .ok m :=
    callee_eq (Array.getElem?_eq_some_iff.mpr ⟨hid, hget⟩) hhost List.length_replicate
  obtain ⟨s, hs⟩ :
      ∃ s, start p .bare (.ofLines []) id (List.replicate m.arity (.int 0)) = .ok s := by
    unfold start
    rw [hcallee]
    exact ⟨_, rfl⟩
  refine ⟨s, ⟨.bare, .ofLines [], id, _, hs, allFull_empty, fun v hv => ?_⟩, fun hsafe => ?_⟩
  · rw [List.eq_of_mem_replicate hv]
    trivial
  · obtain ⟨k, hk⟩ := mem_initialLocals .bare #[] (.inr ⟨l, Array.mem_toList_iff.mpr hl, hty⟩)
    have hlocals : s.frame.locals = (initialLocals .bare #[] m.locals.toList).1 := by
      unfold start at hs
      rw [hcallee] at hs
      obtain rfl := Except.ok.inj hs
      rfl
    rw [← hlocals] at hk
    obtain ⟨a, ha, hsafe⟩ := hsafe _ (.localVar (List.mem_cons_self ..) hk)
    obtain rfl := Except.ok.inj ha
    exact (ArrayValue.full_empty_iff element 0).mp hsafe.full rfl

/-- **Accesses to arrays**: with host routines that do not alter how arrays are built, every run of
every method has only full arrays at hand, in each of its states, and no run ends in the fault of a
missing element, exactly when no method with code declares a variable of rank zero. -/
theorem arrays_safe_iff {hosts : Hosts} (hg : hosts.Gentle) (image : Image) :
    (∀ (σ : Type) (o : Observer σ) (limit : Option Nat) (s : State) (seen : σ) (k : Nat)
        (r : Run σ), Begins image s →
        (go ⟨image, hosts, limit⟩ o k ⟨s, 0, seen⟩ = .running r → r.state.Safe) ∧
        ∀ outcome, go ⟨image, hosts, limit⟩ o k ⟨s, 0, seen⟩ = .ended outcome r →
          r.state.Safe ∧ Outcome.NotMissing outcome) ↔ Ranked image := by
  constructor
  · intro h m hm hhost l hl element hty
    obtain ⟨s, hs, hunsafe⟩ := exists_not_safe hm hhost hl hty
    exact hunsafe ((h Unit .blind none s () 0 ⟨s, 0, ()⟩ hs).1 rfl)
  · intro hp σ o limit s seen k r hs
    have hinv := go_invariant (u := ⟨image, hosts, limit⟩) (o := o)
      (fun r hr => intact_advance hp hg hr) k ⟨s, 0, seen⟩ (hs.intact hp)
    refine ⟨fun hgo => ?_, fun outcome hgo => ?_⟩
    · rw [hgo] at hinv
      exact Intact.safe hinv
    · rw [hgo] at hinv
      exact ⟨hinv.1.safe, hinv.2⟩

/-- A method that makes an array of two dimensions, keeps it in a variable, and sets and reads an
element of it. -/
def gridImage : Image where
  methods := #[
    ⟨"main", [], .integer, #[⟨"grid", .array .integer 2⟩],
      #[.pushInt 2, .pushInt 3, .newArray .integer 2, .storeLocal 0, .loadLocal 0, .pushInt 1,
        .pushInt 2, .pushInt 7, .arraySet 2, .loadLocal 0, .pushInt 1, .pushInt 2, .arrayGet 2,
        .ret],
      #[], none⟩]
  strings := #[]
  hostRoutines := #[]
  entry := some 0

def gridStart : State :=
  ⟨#[], ⟨0, #[], #[.array (.empty .integer 2 0)], 0, 0⟩, [], ⟨#[], 1⟩, .ofLines []⟩

/-- The variable refers to the array that was made. -/
def holdsGrid (s : State) : Bool :=
  match s.frame.locals[0]?, s.heap.arrays[0]? with
  | some (Value.array (.made 0)), some a => a.dims = [2, 3]
  | _, _ => false

theorem gridImage_safe :
    Hosts.standard.Gentle ∧ Ranked gridImage ∧ Begins gridImage gridStart ∧
      ∃ r, go ⟨gridImage, .standard, none⟩ .blind 9 ⟨gridStart, 0, ()⟩ = .running r ∧
        holdsGrid r.state = true ∧ r.state.Reaches (.array (.made 0)) ∧ r.state.Safe := by
  have hranked : Ranked gridImage := by simp [Ranked, gridImage]
  have hbegins : Begins gridImage gridStart :=
    ⟨.bare, .ofLines [], 0, [], rfl, allFull_empty, fun v hv => by cases hv⟩
  have hrun : (match go ⟨gridImage, .standard, none⟩ .blind 9 ⟨gridStart, 0, ()⟩ with
      | .running r => holdsGrid r.state
      | .ended _ _ => false) = true := by
    decide +kernel
  cases hgo : go ⟨gridImage, .standard, none⟩ .blind 9 ⟨gridStart, 0, ()⟩ with
  | ended outcome r =>
    rw [hgo] at hrun
    cases hrun
  | running r =>
    rw [hgo] at hrun
    have hsafe := (arrays_safe_iff gentle_standard gridImage).mpr hranked Unit .blind none gridStart
      () 9 r hbegins
    refine ⟨gentle_standard, hranked, hbegins, r, rfl, hrun, ?_, hsafe.1 hgo⟩
    dsimp only at hrun
    unfold holdsGrid at hrun
    split at hrun
    · next hslot _ => exact .localVar (List.mem_cons_self ..) (Array.mem_of_getElem? hslot)
    · cases hrun

/-- A method that reads the element without indices of the array that its variable, of rank zero,
starts with. -/
def flatImage : Image where
  methods := #[
    ⟨"main", [], .integer, #[⟨"x", .array .integer 0⟩], #[.loadLocal 0, .arrayGet 0, .ret], #[],
      none⟩]
  strings := #[]
  hostRoutines := #[]
  entry := some 0

/-- Such an image can be read from a file.  The array of the variable promises one element and has
none: the access finds a position for it, and the run misses the element there. -/
theorem flatImage_missing :
    Wire.decode (Wire.encode flatImage) = .ok flatImage ∧
      ∃ s, startEntry flatImage .bare (.ofLines []) = .ok s ∧ Begins flatImage s ∧
        s.Reaches (.array (.empty .integer 0 0)) ∧
        (∃ a, s.heap.arrays.find (.empty .integer 0 0) = .ok a ∧ a.data.size ≠ a.dims.prod ∧
          a.offset [] = .ok 0 ∧ ¬ 0 < a.data.size) ∧
        ∃ r, go ⟨flatImage, .standard, none⟩ .blind 2 ⟨s, 0, ()⟩ =
          .ended (.error (.missingElement 0 0)) r := by
  refine ⟨by decide +kernel, _, rfl, ⟨.bare, .ofLines [], 0, [], rfl, allFull_empty, ?_⟩, ?_, ?_,
    _, rfl⟩
  · intro v hv
    cases hv
  · exact .localVar (List.mem_cons_self ..) Array.mem_push_self
  · exact ⟨_, rfl, by decide, rfl, by decide⟩

end Quill.Machine
