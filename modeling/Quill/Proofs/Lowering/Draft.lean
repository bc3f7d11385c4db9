import Quill.Lowering.Draft

/-! # Drafts as their calls leave them

A draft is built by calls in any order, and positions are recorded while its code is still growing.

* `Aligned d`: the positions in the table of labels are those of the markers in the code.
* `Proper calls`: labels that are marked or branched to were created before, none is marked twice,
  and markers are not emitted as instructions.
* `Follows calls d`: what the draft knows of its labels, told from the calls that have built it.

Every allowed call keeps the account right (`Follows.call`), so it is right after any proper calls
(`Follows.callAll`).  `finish_callAll` tells what becomes of such a draft, and which slots its local
variables have, also if the table holds plain words, with one of them kept for labels that have no
position yet. -/

namespace Quill.Lowering

open Code

def isMarker : Instr → Bool
  | .label _ => true
  | _ => false

namespace Draft

variable {d : Draft}

/-! ### Labels and markers -/

theorem labels_newLabel (d : Draft) (k : Nat) :
    d.newLabel.2.labels[k]? = if k = d.labels.size then some none else d.labels[k]? :=
  Array.getElem?_push ..

theorem labels_mark (d : Draft) {l : Nat} (hl : l < d.labels.size) (k : Nat) :
    (d.mark l).labels[k]? = if k = l then some (some d.code.size) else d.labels[k]? := by
  show (d.labels.setIfInBounds l _)[k]? = _
  rw [Array.getElem?_setIfInBounds]
  split
  · next h =>
    subst h
    rw [if_pos rfl]
  · next h => rw [if_neg (fun h' => h h'.symm)]

/-- Labels are where their markers are. -/
def Aligned (d : Draft) : Prop :=
  ∀ l p : Nat, d.labels[l]? = some (some p) ↔ d.code[p]? = some (.label l)

theorem Aligned.newLabel (h : d.Aligned) : d.newLabel.2.Aligned := by
  intro l p
  show _ ↔ d.code[p]? = _
  rw [← h l p, labels_newLabel]
  split
  · next hl =>
    have hnone : d.labels[l]? = none := by simp [hl]
    simp [hnone]
  · rfl

theorem Aligned.mark (h : d.Aligned) {l : Nat} (hl : d.labels[l]? = some none) :
    (d.mark l).Aligned := by
  intro k p
  have hlt : l < d.labels.size := (Array.getElem?_eq_some_iff.mp hl).1
  rw [labels_mark d hlt]
  show _ ↔ (d.code.push (.label l))[p]? = some (.label k)
  rw [Array.getElem?_push]
  by_cases hk : k = l
  · subst hk
    rw [if_pos rfl]
    split
    · next hp => simp [hp]
    · next hp =>
      -- The label waited until now, so no marker of it is in the code.
      rw [← h k p, hl]
      simp [Ne.symm hp]
  · rw [if_neg hk, h k p]
    split
    · next hp => simp [hp, Ne.symm hk]
    · rfl

theorem Aligned.emit (h : d.Aligned) {i : Instr} (hplain : isMarker i = false) :
    (d.emit i).Aligned := by
  intro l p
  show d.labels[l]? = _ ↔ (d.code.push i)[p]? = _
  rw [h l p, Array.getElem?_push]
  split
  · next hp =>
    constructor
    · intro hl
      have hlt := (Array.getElem?_eq_some_iff.mp hl).1
      omega
    · intro hl
      obtain rfl := Option.some.inj hl
      cases hplain
  · rfl

theorem aligned_new (name : String) (params : List Ty) (returnType : Ty) :
    (new name params returnType).Aligned := by
  intro l p
  simp [new]

/-! ### Finishing -/

theorem findIdx?_isNone_eq_none_iff {labels : Array (Option Nat)} :
    labels.findIdx? Option.isNone = none ↔ ∀ l : Nat, labels[l]? ≠ some none := by
  rw [Array.findIdx?_eq_none_iff]
  constructor
  · intro h l hl
    have hmem : none ∈ labels := Array.mem_of_getElem? hl
    cases h none hmem
  · intro h x hx
    obtain ⟨l, hl⟩ := Array.mem_iff_getElem?.mp hx
    cases x with
    | none => exact absurd hl (h l)
    | some _ => rfl

theorem map_some_filterMap_id {ls : List (Option Nat)} (h : ∀ x ∈ ls, x ≠ none) :
    (ls.filterMap id).map some = ls := by
  induction ls with
  | nil => rfl
  | cons x ls ih =>
    obtain ⟨hx, hls⟩ := List.forall_mem_cons.mp h
    obtain ⟨y, rfl⟩ := Option.ne_none_iff_exists'.mp hx
    rw [List.filterMap_cons, id_eq, List.map_cons, ih hls]

/-- A draft can be finished if no label waits for its position. -/
theorem finish_eq_ok_iff {m : Method} : d.finish = .ok m ↔
    (∀ l : Nat, d.labels[l]? ≠ some none) ∧
    m = { name := d.name, params := d.params, returnType := d.returnType, locals := d.locals,
          code := d.code, labels := d.labels.filterMap id, host := none } := by
  rw [← findIdx?_isNone_eq_none_iff]
  unfold finish
  cases d.labels.findIdx? Option.isNone with
  | none => exact ⟨fun h => ⟨rfl, (Except.ok.inj h).symm⟩, fun h => congrArg _ h.2.symm⟩
  | some _ =>
    constructor
    · intro h
      cases h
    · rintro ⟨h, -⟩
      cases h

theorem finish_eq_error_iff {fault : Fault} : d.finish = .error fault ↔
    ∃ l, d.labels[l]? = some none ∧ (∀ k < l, d.labels[k]? ≠ some none) ∧
      fault = .unmarkedLabel d.name l := by
  have hfirst : ∀ l, d.labels.findIdx? Option.isNone = some l ↔
      d.labels[l]? = some none ∧ ∀ k < l, d.labels[k]? ≠ some none := by
    intro l
    rw [Array.findIdx?_eq_some_iff_getElem]
    constructor
    · rintro ⟨hl, hnone, hbefore⟩
      refine ⟨?_, fun k hk hk' => ?_⟩
      · rw [Array.getElem?_eq_getElem hl, Option.isNone_iff_eq_none.mp hnone]
      · have hlt : k < d.labels.size := Nat.lt_trans hk hl
        rw [Array.getElem?_eq_getElem hlt] at hk'
        exact hbefore k hk (by rw [Option.some.inj hk']; rfl)
    · rintro ⟨hl, hbefore⟩
      obtain ⟨hlt, hnone⟩ := Array.getElem?_eq_some_iff.mp hl
      refine ⟨hlt, by rw [hnone]; rfl, fun k hk hk' => hbefore k hk ?_⟩
      rw [Array.getElem?_eq_getElem (Nat.lt_trans hk hlt), Option.isNone_iff_eq_none.mp hk']
  unfold finish
  constructor
  · intro h
    cases hfind : d.labels.findIdx? Option.isNone with
    | none =>
      rw [hfind] at h
      cases h
    | some l =>
      rw [hfind] at h
      obtain ⟨hl, hbefore⟩ := (hfirst l).mp hfind
      exact ⟨l, hl, hbefore, (Except.error.inj h).symm⟩
  · rintro ⟨l, hl, hbefore, rfl⟩
    rw [(hfirst l).mpr ⟨hl, hbefore⟩]

theorem map_labels_finish {m : Method} (h : d.finish = .ok m) : m.labels.map some = d.labels := by
  obtain ⟨hall, rfl⟩ := finish_eq_ok_iff.mp h
  apply Array.ext'
  rw [Array.toList_map, Array.toList_filterMap]
  refine map_some_filterMap_id fun x hx hnone => ?_
  obtain ⟨l, hl⟩ := Array.mem_iff_getElem?.mp (Array.mem_toList_iff.mp hx)
  exact hall l (hnone ▸ hl)

/-- The finished method has the labels of the draft, all of them marked. -/
theorem labels_finish {m : Method} (h : d.finish = .ok m) :
    m.labels.size = d.labels.size ∧
      ∀ l p : Nat, m.labels[l]? = some p ↔ d.labels[l]? = some (some p) := by
  rw [← map_labels_finish h]
  refine ⟨Array.size_map.symm, fun l p => ?_⟩
  rw [Array.getElem?_map, Option.map_eq_some_iff]
  constructor
  · exact fun hl => ⟨p, hl, rfl⟩
  · rintro ⟨_, hl, hp⟩
    exact hl.trans hp

/-! ### Calls -/

inductive Call where
  | newLabel
  | mark (label : Nat)
  | emit (i : Instr)
  | allocLocal (name : String) (ty : Ty)
  deriving DecidableEq, Repr

/-- The draft after a call, whatever the call answers. -/
def call (d : Draft) : Call → Draft
  | .newLabel => d.newLabel.2
  | .mark label => d.mark label
  | .emit i => d.emit i
  | .allocLocal name ty => (d.allocLocal name ty).2

def callAll (d : Draft) (calls : List Call) : Draft := calls.foldl call d

def Call.marked? : Call → Option Nat
  | .mark label => some label
  | _ => none

def Call.instr? : Call → Option Instr
  | .mark label => some (.label label)
  | .emit i => some i
  | _ => none

/-- The local variable that a call asks for. -/
def Call.local? : Call → Option Local
  | .allocLocal name ty => some ⟨name, ty⟩
  | _ => none

def created (calls : List Call) : Nat := calls.count .newLabel

def marked (calls : List Call) : List Nat := calls.filterMap Call.marked?

/-- The local variables that calls ask for. -/
def wanted (calls : List Call) : List Local := calls.filterMap Call.local?

/-- Calls that are allowed after others: a label that is marked or branched to was created by one of
them and no label is marked twice; an instruction that is emitted is no marker. -/
def Allowed (before : List Call) : Call → Prop
  | .newLabel | .allocLocal _ _ => True
  | .mark label => label < created before ∧ label ∉ marked before
  | .emit i => isMarker i = false ∧ ∀ label ∈ i.target?, label < created before

instance (before : List Call) : DecidablePred (Allowed before)
  | .newLabel | .allocLocal _ _ => inferInstanceAs (Decidable True)
  | .mark _ => inferInstanceAs (Decidable (_ ∧ _))
  | .emit _ => inferInstanceAs (Decidable (_ ∧ _))

/-- Each call is allowed after those before it. -/
def ProperAfter (before : List Call) : List Call → Prop
  | [] => True
  | c :: rest => Allowed before c ∧ ProperAfter (before ++ [c]) rest

instance ProperAfter.decide : (before calls : List Call) → Decidable (ProperAfter before calls)
  | _, [] => inferInstanceAs (Decidable True)
  | before, c :: rest =>
    have := ProperAfter.decide (before ++ [c]) rest
    inferInstanceAs (Decidable (_ ∧ _))

/-- Calls in an order in which all of them are allowed. -/
def Proper (calls : List Call) : Prop := ProperAfter [] calls

instance : DecidablePred Proper := ProperAfter.decide []

/-! ### What calls leave, in any order -/

theorem created_append (calls rest : List Call) :
    created (calls ++ rest) = created calls + created rest := List.count_append

theorem marked_append (calls rest : List Call) :
    marked (calls ++ rest) = marked calls ++ marked rest := List.filterMap_append

theorem wanted_append (calls rest : List Call) :
    wanted (calls ++ rest) = wanted calls ++ wanted rest := List.filterMap_append

section

variable {x : String} {ty : Ty}

theorem allocLocal_of_lt (h : d.locals.size < slotLimit) :
    d.allocLocal x ty = (.ok d.locals.size, { d with locals := d.locals.push ⟨x, ty⟩ }) := if_pos h

theorem allocLocal_of_le (h : slotLimit ≤ d.locals.size) :
    d.allocLocal x ty = (.error (.malformed (.tooManyLocals d.name)), d) :=
  if_neg (Nat.not_lt.mpr h)

theorem snd_allocLocal (d : Draft) (x : String) (ty : Ty) :
    (d.allocLocal x ty).2 = { d with locals := (d.allocLocal x ty).2.locals } := by
  unfold allocLocal
  dsimp only
  split <;> rfl

end

theorem callAll_cons (d : Draft) (c : Call) (rest : List Call) :
    d.callAll (c :: rest) = (d.call c).callAll rest := rfl

theorem head_call (d : Draft) (c : Call) :
    (d.call c).name = d.name ∧ (d.call c).params = d.params ∧
      (d.call c).returnType = d.returnType := by
  cases c with
  | newLabel => exact ⟨rfl, rfl, rfl⟩
  | mark label => exact ⟨rfl, rfl, rfl⟩
  | emit i => exact ⟨rfl, rfl, rfl⟩
  | allocLocal x ty =>
    have h := d.snd_allocLocal x ty
    exact ⟨congrArg (·.name) h, congrArg (·.params) h, congrArg (·.returnType) h⟩

theorem head_callAll (calls : List Call) : ∀ d : Draft,
    (d.callAll calls).name = d.name ∧ (d.callAll calls).params = d.params ∧
      (d.callAll calls).returnType = d.returnType := by
  induction calls with
  | nil => exact fun _ => ⟨rfl, rfl, rfl⟩
  | cons c rest ih =>
    intro d
    obtain ⟨hname, hparams, hreturn⟩ := head_call d c
    rw [callAll_cons, ← hname, ← hparams, ← hreturn]
    exact ih (d.call c)

theorem size_labels_call (d : Draft) (c : Call) :
    (d.call c).labels.size = d.labels.size + created [c] := by
  cases c with
  | newLabel => exact Array.size_push ..
  | mark label => exact Array.size_setIfInBounds ..
  | emit i => rfl
  | allocLocal x ty => exact congrArg (·.labels.size) (d.snd_allocLocal x ty)

theorem size_labels_callAll (calls : List Call) : ∀ d : Draft,
    (d.callAll calls).labels.size = d.labels.size + created calls := by
  induction calls with
  | nil => exact fun _ => rfl
  | cons c rest ih =>
    intro d
    have hsplit : created (c :: rest) = created [c] + created rest := created_append [c] rest
    rw [callAll_cons, ih, size_labels_call, hsplit, Nat.add_assoc]

theorem code_call (d : Draft) (c : Call) :
    (d.call c).code.toList = d.code.toList ++ c.instr?.toList := by
  cases c with
  | newLabel => exact (List.append_nil _).symm
  | mark label => exact Array.toList_push
  | emit i => exact Array.toList_push
  | allocLocal x ty =>
    exact (congrArg (·.code.toList) (d.snd_allocLocal x ty)).trans (List.append_nil _).symm

theorem code_callAll (calls : List Call) : ∀ d : Draft,
    (d.callAll calls).code.toList = d.code.toList ++ calls.filterMap Call.instr? := by
  induction calls with
  | nil => exact fun _ => (List.append_nil _).symm
  | cons c rest ih =>
    intro d
    rw [callAll_cons, ih, code_call, List.append_assoc]
    cases c <;> rfl

/-- A draft has slots for as many local variables as there are; the others are refused. -/
theorem locals_call (c : Call) (h : d.locals.size ≤ slotLimit) :
    (d.call c).locals.toList = (d.locals.toList ++ c.local?.toList).take slotLimit := by
  cases c with
  | newLabel | mark _ | emit _ =>
    show d.locals.toList = (d.locals.toList ++ []).take slotLimit
    rw [List.append_nil, List.take_of_length_le h]
  | allocLocal x ty =>
    show (d.allocLocal x ty).2.locals.toList =
      (d.locals.toList ++ [Local.mk x ty]).take slotLimit
    by_cases hlt : d.locals.size < slotLimit
    · have hle : (d.locals.toList ++ [Local.mk x ty]).length ≤ slotLimit := by
        rw [List.length_append, Array.length_toList]
        exact hlt
      rw [allocLocal_of_lt hlt, List.take_of_length_le hle]
      exact Array.toList_push
    · have hfull : d.locals.toList.length = slotLimit := Nat.le_antisymm h (Nat.not_lt.mp hlt)
      rw [allocLocal_of_le (Nat.not_lt.mp hlt), ← hfull, List.take_left]

theorem take_take_append {α : Type} (n : Nat) (xs ys : List α) :
    (xs.take n ++ ys).take n = (xs ++ ys).take n := by
  have hleft : n - min n xs.length = n - xs.length := by omega
  rw [List.take_append, List.take_append, List.take_take, Nat.min_self, List.length_take, hleft]

theorem locals_callAll (calls : List Call) : ∀ {d : Draft}, d.locals.size ≤ slotLimit →
    (d.callAll calls).locals.toList = (d.locals.toList ++ wanted calls).take slotLimit := by
  induction calls with
  | nil =>
    intro d h
    show d.locals.toList = (d.locals.toList ++ []).take slotLimit
    rw [List.append_nil, List.take_of_length_le h]
  | cons c rest ih =>
    intro d h
    have hstep := locals_call c h
    have hsize : (d.call c).locals.size ≤ slotLimit := by
      rw [← Array.length_toList, hstep, List.length_take]
      exact Nat.min_le_left ..
    have hsplit : wanted (c :: rest) = c.local?.toList ++ wanted rest := by
      cases c <;> rfl
    rw [callAll_cons, ih hsize, hstep, hsplit, ← List.append_assoc]
    exact take_take_append _ _ _

/-! ### What proper calls leave -/

/-- What a draft knows of its labels, told from the calls that have built it. -/
structure Follows (calls : List Call) (d : Draft) : Prop where
  size : d.labels.size = created calls
  marked_lt : ∀ l ∈ marked calls, l < created calls
  waiting : ∀ l : Nat, d.labels[l]? = some none ↔ l < created calls ∧ l ∉ marked calls
  aligned : d.Aligned
  targets : ∀ i ∈ d.code, ∀ label ∈ i.target?, label < created calls

theorem follows_new (name : String) (params : List Ty) (returnType : Ty) :
    Follows [] (new name params returnType) := by
  refine ⟨rfl, fun l hl => ?_, fun l => ?_, aligned_new name params returnType, fun i hi => ?_⟩
  · cases hl
  · simp [new, created]
  · simp [new] at hi

section

variable {before : List Call}

theorem Follows.newLabel (h : Follows before d) :
    Follows (before ++ [.newLabel]) d.newLabel.2 := by
  have hcreated : created (before ++ [.newLabel]) = created before + 1 := created_append ..
  have hmarked : marked (before ++ [.newLabel]) = marked before := by
    rw [marked_append]
    exact List.append_nil _
  refine ⟨?_, ?_, fun l => ?_, h.aligned.newLabel, ?_⟩
  · rw [hcreated, ← h.size]
    exact Array.size_push ..
  · rw [hcreated, hmarked]
    exact fun l hl => Nat.lt_succ_of_lt (h.marked_lt l hl)
  · rw [labels_newLabel, hcreated, hmarked, h.size]
    split
    · next hl =>
      have hnew : l ∉ marked before := fun hmem => Nat.ne_of_lt (h.marked_lt l hmem) hl
      exact iff_of_true rfl ⟨by omega, hnew⟩
    · next hl =>
      rw [h.waiting l, Nat.lt_succ_iff_lt_or_eq, or_iff_left hl]
  · rw [hcreated]
    exact fun i hi label hl => Nat.lt_succ_of_lt (h.targets i hi label hl)

theorem Follows.mark (h : Follows before d) {label : Nat} (hlt : label < created before)
    (hnew : label ∉ marked before) : Follows (before ++ [.mark label]) (d.mark label) := by
  have hcreated : created (before ++ [.mark label]) = created before := created_append ..
  have hmarked : marked (before ++ [.mark label]) = marked before ++ [label] := marked_append ..
  have hwaits : d.labels[label]? = some none := (h.waiting label).mpr ⟨hlt, hnew⟩
  refine ⟨?_, ?_, fun l => ?_, h.aligned.mark hwaits, fun i hi target ht => ?_⟩
  · rw [hcreated, ← h.size]
    exact Array.size_setIfInBounds ..
  · rw [hcreated, hmarked]
    exact List.forall_mem_append.mpr ⟨h.marked_lt, List.forall_mem_singleton.mpr hlt⟩
  · rw [labels_mark d (h.size ▸ hlt), hcreated, hmarked, List.mem_append, List.mem_singleton]
    split
    · next hl => simp [hl]
    · next hl => rw [h.waiting l, or_iff_left hl]
  · rw [hcreated]
    rcases Array.mem_push.mp hi with hi | rfl
    · exact h.targets i hi target ht
    · cases ht

/-- A call that neither creates nor marks a label leaves the table of labels as it is. -/
theorem Follows.keep (h : Follows before d) {c : Call} {d' : Draft} (hcreates : created [c] = 0)
    (hmarks : marked [c] = []) (hlabels : d'.labels = d.labels) (haligned : d'.Aligned)
    (htargets : ∀ i ∈ d'.code, ∀ label ∈ i.target?, label < created before) :
    Follows (before ++ [c]) d' := by
  have hcreated : created (before ++ [c]) = created before := by rw [created_append, hcreates]; rfl
  have hmarked : marked (before ++ [c]) = marked before := by
    rw [marked_append, hmarks, List.append_nil]
  refine ⟨?_, ?_, fun l => ?_, haligned, ?_⟩
  · rw [hlabels, hcreated, h.size]
  · rw [hcreated, hmarked]
    exact h.marked_lt
  · rw [hlabels, hcreated, hmarked]
    exact h.waiting l
  · rw [hcreated]
    exact htargets

/-- Each allowed call keeps the account of the labels right. -/
theorem Follows.call (h : Follows before d) {c : Call} (hc : Allowed before c) :
    Follows (before ++ [c]) (d.call c) := by
  cases c with
  | newLabel => exact h.newLabel
  | mark label => exact h.mark hc.1 hc.2
  | emit i =>
    refine h.keep rfl rfl rfl (h.aligned.emit hc.1) fun j hj => ?_
    rcases Array.mem_push.mp hj with hj | rfl
    · exact h.targets j hj
    · exact hc.2
  | allocLocal x ty =>
    have hlabels : (d.allocLocal x ty).2.labels = d.labels :=
      congrArg (·.labels) (d.snd_allocLocal x ty)
    have hcode : (d.allocLocal x ty).2.code = d.code :=
      congrArg (·.code) (d.snd_allocLocal x ty)
    refine h.keep rfl rfl hlabels (fun l p => ?_) fun i hi => h.targets i (hcode ▸ hi)
    show (d.allocLocal x ty).2.labels[l]? = _ ↔ (d.allocLocal x ty).2.code[p]? = _
    rw [hlabels, hcode]
    exact h.aligned l p

end

theorem Follows.callAll (rest : List Call) : ∀ {before : List Call} {d : Draft},
    Follows before d → ProperAfter before rest → Follows (before ++ rest) (d.callAll rest) := by
  induction rest with
  | nil =>
    intro before d h _
    rwa [List.append_nil]
  | cons c rest ih =>
    rintro before d h ⟨hc, hrest⟩
    have hnext := ih (h.call hc) hrest
    rwa [List.append_assoc] at hnext

/-! ### Slots -/

/-- The slot of a local variable tells how many were asked for before; when all slots are taken the
draft stays as it is. -/
theorem allocLocal_callAll {start : Draft} (hstart : start.locals = #[]) (before rest : List Call)
    (x : String) (ty : Ty) :
    let d := start.callAll before
    let slot := (wanted before).length
    (slot < slotLimit → (d.allocLocal x ty).1 = .ok slot ∧
      (start.callAll (before ++ .allocLocal x ty :: rest)).locals[slot]? = some ⟨x, ty⟩) ∧
    (slotLimit ≤ slot →
      d.allocLocal x ty = (.error (.malformed (.tooManyLocals start.name)), d)) := by
  intro d slot
  have hnone : start.locals.size ≤ slotLimit := by
    rw [hstart]
    exact Nat.zero_le _
  have hlocals : ∀ calls, (start.callAll calls).locals.toList = (wanted calls).take slotLimit := by
    intro calls
    rw [locals_callAll calls hnone, hstart]
    rfl
  have hsize : d.locals.size = min slotLimit slot := by
    rw [← Array.length_toList, hlocals, List.length_take]
  refine ⟨fun hlt => ⟨?_, ?_⟩, fun hle => ?_⟩
  · have hslot : d.locals.size = slot := by omega
    rw [allocLocal_of_lt (by omega), hslot]
  · have hwanted : wanted (before ++ .allocLocal x ty :: rest) =
        wanted before ++ ⟨x, ty⟩ :: wanted rest := wanted_append ..
    rw [← Array.getElem?_toList, hlocals, hwanted, List.getElem?_take_of_lt hlt,
      List.getElem?_append_right (Nat.le_refl slot), Nat.sub_self]
    rfl
  · rw [allocLocal_of_le (by omega), (head_callAll before start).1]

/-! ### The finished method -/

/-- The first label that is created and never marked. -/
def FirstUnmarked (calls : List Call) (label : Nat) : Prop :=
  label < created calls ∧ label ∉ marked calls ∧ ∀ k < label, k ∈ marked calls

/-- The method holds what the calls have asked for, in their order, and knows its labels. -/
structure Holds (start : Draft) (calls : List Call) (m : Method) : Prop where
  head : m.name = start.name ∧ m.params = start.params ∧ m.returnType = start.returnType ∧
    m.host = none
  code : m.code.toList = calls.filterMap Call.instr?
  locals : m.locals.toList = (wanted calls).take slotLimit
  labels : m.labels.size = created calls
  /-- The position of a label is the one of its only marker. -/
  position : ∀ label < created calls, ∃ p, m.position? label = some p ∧
    ∀ q : Nat, m.code[q]? = some (.label label) ↔ q = p
  targets : ∀ i ∈ m.code, ∀ label ∈ i.target?, ∃ p, m.position? label = some p

theorem Follows.holds {calls : List Call} {start : Draft} (hlocals : start.locals = #[])
    (hcode : start.code = #[]) (h : Follows calls (start.callAll calls)) {m : Method}
    (hm : (start.callAll calls).finish = .ok m) : Holds start calls m := by
  obtain ⟨hsize, hposition⟩ := labels_finish hm
  rw [h.size] at hsize
  obtain ⟨hname, hparams, hreturn⟩ := head_callAll calls start
  have hpos : ∀ label < created calls, ∃ p, m.position? label = some p := by
    intro label hlt
    exact ⟨_, Array.getElem?_eq_getElem (hsize.symm ▸ hlt)⟩
  have hmarker : ∀ label p : Nat,
      m.position? label = some p ↔ (start.callAll calls).code[p]? = some (.label label) :=
    fun label p => (hposition label p).trans (h.aligned label p)
  have hnone : start.locals.size ≤ slotLimit := by
    rw [hlocals]
    exact Nat.zero_le _
  obtain ⟨-, rfl⟩ := finish_eq_ok_iff.mp hm
  refine ⟨⟨hname, hparams, hreturn, rfl⟩, ?_, ?_, hsize, fun label hlt => ?_, fun i hi label hl =>
    hpos label (h.targets i hi label hl)⟩
  · show (start.callAll calls).code.toList = _
    rw [code_callAll, hcode]
    rfl
  · show (start.callAll calls).locals.toList = _
    rw [locals_callAll calls hnone, hlocals]
    rfl
  · obtain ⟨p, hp⟩ := hpos label hlt
    refine ⟨p, hp, fun q => ?_⟩
    rw [← hmarker label q, hp]
    exact ⟨fun heq => (Option.some.inj heq).symm, fun heq => heq ▸ rfl⟩

/-! ### Labels without position as a word

A table of plain words serves as well, with one word kept for the labels that are not marked: no
position is this word as long as the code is not longer. -/

/-- The table of the labels' positions, with a word for those that are not marked. -/
def words (d : Draft) (unmarked : Nat) : Array Nat := d.labels.map (·.getD unmarked)

/-- What a call does to the amount of code and to a table of words. -/
def Call.onWords (unmarked : Nat) : Nat × Array Nat → Call → Nat × Array Nat
  | (size, table), .newLabel => (size, table.push unmarked)
  | (size, table), .mark label => (size + 1, table.setIfInBounds label size)
  | (size, table), .emit _ => (size + 1, table)
  | (size, table), .allocLocal _ _ => (size, table)

theorem words_call (d : Draft) (unmarked : Nat) (c : Call) :
    ((d.call c).code.size, (d.call c).words unmarked) =
      Call.onWords unmarked (d.code.size, d.words unmarked) c := by
  cases c with
  | newLabel => exact Prod.ext rfl (Array.map_push ..)
  | mark label => exact Prod.ext (Array.size_push ..) (Array.map_setIfInBounds ..)
  | emit i => exact Prod.ext (Array.size_push ..) rfl
  | allocLocal x ty =>
    exact congrArg (fun d' => (d'.code.size, d'.words unmarked)) (d.snd_allocLocal x ty)

theorem words_callAll (unmarked : Nat) (calls : List Call) : ∀ d : Draft,
    ((d.callAll calls).code.size, (d.callAll calls).words unmarked) =
      calls.foldl (Call.onWords unmarked) (d.code.size, d.words unmarked) := by
  induction calls with
  | nil => exact fun _ => rfl
  | cons c rest ih =>
    intro d
    rw [callAll_cons, ih, words_call, List.foldl_cons]

/-- The words tell which labels are marked: none of the positions is the word for no position. -/
theorem map_words (h : d.Aligned) {unmarked : Nat} (hsize : d.code.size ≤ unmarked) :
    (d.words unmarked).map (fun p => if p = unmarked then none else some p) = d.labels := by
  have hback : ∀ x ∈ d.labels,
      (if x.getD unmarked = unmarked then none else some (x.getD unmarked)) = x := by
    intro x hx
    obtain ⟨l, hl⟩ := Array.mem_iff_getElem?.mp hx
    cases x with
    | none => exact if_pos rfl
    | some p =>
      have hlt := (Array.getElem?_eq_some_iff.mp ((h l p).mp hl)).1
      exact if_neg (Nat.ne_of_lt (Nat.lt_of_lt_of_le hlt hsize))
  rw [words, Array.map_map]
  exact (Array.map_congr_left hback).trans (Array.map_id d.labels)

/-- A draft is finished by looking for the word among the positions. -/
theorem finish_eq_words (h : d.Aligned) {unmarked : Nat} (hsize : d.code.size ≤ unmarked) :
    d.finish = match (d.words unmarked).findIdx? (· = unmarked) with
      | some label => .error (.unmarkedLabel d.name label)
      | none => .ok { name := d.name, params := d.params, returnType := d.returnType,
                      locals := d.locals, code := d.code, labels := d.words unmarked,
                      host := none } := by
  have hfind : (d.words unmarked).findIdx? (· = unmarked) = d.labels.findIdx? Option.isNone := by
    rw [← map_words h hsize, Array.findIdx?_map]
    congr 1
    funext p
    by_cases hp : p = unmarked <;> simp [hp]
  rw [hfind]
  cases hnone : d.labels.findIdx? Option.isNone with
  | some label =>
    unfold finish
    rw [hnone]
  | none =>
    have hm := finish_eq_ok_iff.mpr ⟨findIdx?_isNone_eq_none_iff.mp hnone, rfl⟩
    have hwords : d.words unmarked = d.labels.filterMap id := calc
      d.words unmarked = ((d.labels.filterMap id).map some).map (·.getD unmarked) :=
        congrArg (fun labels => labels.map (·.getD unmarked)) (map_labels_finish hm).symm
      _ = d.labels.filterMap id := by
        rw [Array.map_map]
        exact Array.map_id _
    rw [hm, hwords]

/-- After proper calls a draft is finished as from a table of words that the calls have built, if the
word for no position is not below the number of calls. -/
theorem finish_callAll_words (name : String) (params : List Ty) (returnType : Ty)
    {calls : List Call} (h : Proper calls) {unmarked : Nat} (hlength : calls.length ≤ unmarked) :
    let d := (new name params returnType).callAll calls
    let table := (calls.foldl (Call.onWords unmarked) (0, #[])).2
    d.finish = match table.findIdx? (· = unmarked) with
      | some label => .error (.unmarkedLabel name label)
      | none => .ok { name, params, returnType, locals := d.locals, code := d.code, labels := table,
                      host := none } := by
  intro d table
  have hd : Follows calls d := (follows_new name params returnType).callAll calls h
  obtain ⟨hname, hparams, hreturn⟩ := head_callAll calls (new name params returnType)
  have hsize : d.code.size ≤ unmarked := by
    rw [← Array.length_toList, code_callAll]
    exact Nat.le_trans (List.length_filterMap_le ..) hlength
  have hempty : (new name params returnType).words unmarked = #[] := Array.map_empty
  have hwords := words_callAll unmarked calls (new name params returnType)
  rw [hempty] at hwords
  have htable : d.words unmarked = table := congrArg Prod.snd hwords
  rw [finish_eq_words hd.aligned hsize, htable, hname, hparams, hreturn]
  rfl

/-! ### What becomes of a draft -/

/-- **Drafts keep account of labels and slots**, whatever the order of proper calls.  A draft can be
finished exactly if every label that was created is marked, and otherwise the fault names the first
one that is not.  The finished method holds instructions and markers in the order of the calls, the
position of each label is the one of its only marker, and branches go to labels with a position.
Labels are numbered in the order of their creation; local variables get slots in order until all
slots are taken, and are refused from then on with the draft left as it is.  A table of words, with
one word kept for the labels that are not marked, finishes the draft in the same way. -/
theorem finish_callAll (name : String) (params : List Ty) (returnType : Ty) {calls : List Call}
    (h : Proper calls) :
    let start := new name params returnType
    let d := start.callAll calls
    ((∃ m, d.finish = .ok m) ↔ ∀ label < created calls, label ∈ marked calls) ∧
    (∀ fault, d.finish = .error fault ↔
      ∃ label, FirstUnmarked calls label ∧ fault = .unmarkedLabel name label) ∧
    (∀ m, d.finish = .ok m → Holds start calls m) ∧
    (∀ before rest, calls = before ++ .newLabel :: rest →
      (start.callAll before).newLabel.1 = created before) ∧
    (∀ before x ty rest, calls = before ++ .allocLocal x ty :: rest →
      let slot := (wanted before).length
      (slot < slotLimit → ((start.callAll before).allocLocal x ty).1 = .ok slot ∧
        d.locals[slot]? = some ⟨x, ty⟩) ∧
      (slotLimit ≤ slot → (start.callAll before).allocLocal x ty =
        (.error (.malformed (.tooManyLocals name)), start.callAll before))) ∧
    ∀ unmarked, calls.length ≤ unmarked →
      let table := (calls.foldl (Call.onWords unmarked) (0, #[])).2
      d.finish = match table.findIdx? (· = unmarked) with
        | some label => .error (.unmarkedLabel name label)
        | none => .ok { name, params, returnType, locals := d.locals, code := d.code,
                        labels := table, host := none } := by
  intro start d
  have hd : Follows calls d := (follows_new name params returnType).callAll calls h
  have hname : d.name = name := (head_callAll calls start).1
  refine ⟨?_, fun fault => ?_, fun m hm => hd.holds rfl rfl hm, ?_, ?_, fun unmarked hlength =>
    finish_callAll_words name params returnType h hlength⟩
  · constructor
    · rintro ⟨m, hm⟩ label hlt
      obtain ⟨hall, -⟩ := finish_eq_ok_iff.mp hm
      have hwaits := hall label
      rw [Ne, hd.waiting label, not_and] at hwaits
      exact Decidable.of_not_not (hwaits hlt)
    · intro hall
      refine ⟨_, finish_eq_ok_iff.mpr ⟨fun label hl => ?_, rfl⟩⟩
      obtain ⟨hlt, hnot⟩ := (hd.waiting label).mp hl
      exact hnot (hall label hlt)
  · rw [finish_eq_error_iff, hname]
    refine exists_congr fun label => ?_
    rw [hd.waiting label, FirstUnmarked, and_assoc, and_assoc, and_assoc]
    refine and_congr_right fun hlt => and_congr_right fun _ => and_congr_left fun _ => ?_
    refine forall₂_congr fun k hk => ?_
    rw [Ne, hd.waiting k, not_and, Decidable.not_not]
    exact ⟨fun hmem => hmem (Nat.lt_trans hk hlt), fun hmem _ => hmem⟩
  · rintro before rest -
    show (start.callAll before).labels.size = _
    rw [size_labels_callAll]
    exact Nat.zero_add _
  · rintro before x ty rest rfl
    exact allocLocal_callAll rfl before rest x ty

/-- A loop that jumps back to its first label and leaves to its second. -/
theorem finish_callAll_loop :
    let start := new "f" [] .void
    let calls : List Call := [.allocLocal "i" .integer, .newLabel, .newLabel, .mark 0,
      .emit (.loadLocal 0), .emit (.branchIfTrue 1), .emit (.jump 0), .mark 1, .emit .ret]
    Proper calls ∧ ∃ m, (start.callAll calls).finish = .ok m ∧ Holds start calls m := by
  intro start calls
  have hproper : Proper calls := by decide
  obtain ⟨hfinish, -, hholds, -⟩ := finish_callAll "f" [] .void hproper
  obtain ⟨m, hm⟩ := hfinish.mpr (by decide)
  exact ⟨hproper, m, hm, hholds m hm⟩

end Draft

end Quill.Lowering
