import Quill.Proofs.Lowering.Draft
import Quill.Proofs.Lowering.Layout

/-! # Lowering lays code out

Lowering only appends: what a draft holds stays there, and a label that is marked keeps its
position.  So the code that a tree gets in a draft is still its code in the finished method.

* `Keeps st st'`: nothing of the first state is lost in the second.
* `Grows st st'`: moreover, no label of the first state has been touched, and every label that is
  new in the second is marked.  This holds across the code of a whole tree.
* `Final st m strings`: nothing of the state is lost in the finished method and string pool.

`lowerValue_layout` and `lowerStmt_layout` derive the layout of the finished code. -/

namespace Quill.Lowering

open Code

theorem bind_eq_ok {ε α β : Type} {x : Except ε α} {f : α → Except ε β} {b : β} :
    (x >>= f) = .ok b ↔ ∃ a, x = .ok a ∧ f a = .ok b := by
  cases x with
  | error e =>
    constructor
    · intro h
      cases h
    · rintro ⟨_, h, _⟩
      cases h
  | ok a =>
    constructor
    · exact fun h => ⟨a, rfl, h⟩
    · rintro ⟨_, h, h'⟩
      cases h
      exact h'

/-- Nothing of an array is lost in another. -/
def Within {α : Type} (xs ys : Array α) : Prop :=
  ∀ (k : Nat) x, xs[k]? = some x → ys[k]? = some x

theorem Within.refl {α : Type} (xs : Array α) : Within xs xs := fun _ _ h => h

theorem Within.trans {α : Type} {xs ys zs : Array α} (h : Within xs ys) (h' : Within ys zs) :
    Within xs zs := fun k x hx => h' k x (h k x hx)

theorem within_push {α : Type} (xs : Array α) (x : α) : Within xs (xs.push x) := by
  intro k y hy
  have hk : k < xs.size := (Array.getElem?_eq_some_iff.mp hy).1
  rw [Array.getElem?_push, if_neg (by omega), hy]

/-- Nothing of the first state is lost in the second. -/
structure Keeps (st st' : State) : Prop where
  code : Within st.draft.code st'.draft.code
  locals : Within st.draft.locals st'.draft.locals
  pool : Within st.pool st'.pool
  marked : ∀ l p : Nat, st.draft.labels[l]? = some (some p) → st'.draft.labels[l]? = some (some p)

/-- Nothing is lost, the labels are as they were, and the new ones are marked. -/
structure Grows (st st' : State) : Prop where
  code : Within st.draft.code st'.draft.code
  locals : Within st.draft.locals st'.draft.locals
  pool : Within st.pool st'.pool
  head : st'.draft.name = st.draft.name ∧ st'.draft.params = st.draft.params ∧
    st'.draft.returnType = st.draft.returnType
  size_le : st.draft.labels.size ≤ st'.draft.labels.size
  label : ∀ l < st.draft.labels.size, st'.draft.labels[l]? = st.draft.labels[l]?
  fresh : ∀ l, st.draft.labels.size ≤ l → l < st'.draft.labels.size →
    ∃ p, st'.draft.labels[l]? = some (some p)

/-- Nothing of a state is lost in a finished method and string pool. -/
structure Final (st : State) (m : Method) (strings : Array String) : Prop where
  code : Within st.draft.code m.code
  locals : Within st.draft.locals m.locals
  pool : Within st.pool strings
  marked : ∀ l p : Nat, st.draft.labels[l]? = some (some p) → m.position? l = some p

theorem Keeps.refl (st : State) : Keeps st st :=
  ⟨Within.refl _, Within.refl _, Within.refl _, fun _ _ h => h⟩

theorem Keeps.trans {st st' st'' : State} (h : Keeps st st') (h' : Keeps st' st'') :
    Keeps st st'' :=
  ⟨h.code.trans h'.code, h.locals.trans h'.locals, h.pool.trans h'.pool,
    fun l p hl => h'.marked l p (h.marked l p hl)⟩

theorem Final.keeps {st st' : State} {m : Method} {strings : Array String}
    (h : Final st' m strings) (hk : Keeps st st') : Final st m strings :=
  ⟨hk.code.trans h.code, hk.locals.trans h.locals, hk.pool.trans h.pool,
    fun l p hl => h.marked l p (hk.marked l p hl)⟩

namespace Grows

theorem refl (st : State) : Grows st st :=
  ⟨Within.refl _, Within.refl _, Within.refl _, ⟨rfl, rfl, rfl⟩, Nat.le_refl _, fun _ _ => rfl,
    fun l h h' => absurd h' (by omega)⟩

theorem trans {st st' st'' : State} (h : Grows st st') (h' : Grows st' st'') : Grows st st'' where
  code := h.code.trans h'.code
  locals := h.locals.trans h'.locals
  pool := h.pool.trans h'.pool
  head := ⟨h'.head.1.trans h.head.1, h'.head.2.1.trans h.head.2.1, h'.head.2.2.trans h.head.2.2⟩
  size_le := Nat.le_trans h.size_le h'.size_le
  label l hl := (h'.label l (Nat.lt_of_lt_of_le hl h.size_le)).trans (h.label l hl)
  fresh l hl hl' := by
    by_cases hlt : l < st'.draft.labels.size
    · obtain ⟨p, hp⟩ := h.fresh l hl hlt
      exact ⟨p, (h'.label l hlt).trans hp⟩
    · exact h'.fresh l (by omega) hl'

theorem keeps {st st' : State} (h : Grows st st') : Keeps st st' := by
  refine ⟨h.code, h.locals, h.pool, fun l p hl => ?_⟩
  have hlt : l < st.draft.labels.size := (Array.getElem?_eq_some_iff.mp hl).1
  rw [h.label l hlt, hl]

end Grows

/-- The state has grown by code with a property, and the variables are as they were. -/
structure Lays (st st' : State) (P : Method → Array String → Prop) : Prop where
  grows : Grows st st'
  visible : st'.visible = st.visible
  locals : st'.draft.locals = st.draft.locals
  layout : ∀ {m : Method} {strings : Array String}, Final st' m strings → P m strings

theorem Lays.trans {st st' st'' : State} {P Q : Method → Array String → Prop}
    (h : Lays st st' P) (h' : Lays st' st'' Q) : Lays st st'' fun m strings =>
      P m strings ∧ Q m strings :=
  ⟨h.grows.trans h'.grows, h'.visible.trans h.visible, h'.locals.trans h.locals,
    fun hf => ⟨h.layout (hf.keeps h'.grows.keeps), h'.layout hf⟩⟩

theorem Lays.imp {st st' : State} {P Q : Method → Array String → Prop} (h : Lays st st' P)
    (hPQ : ∀ m strings, P m strings → Q m strings) : Lays st st' Q :=
  ⟨h.grows, h.visible, h.locals, fun hf => hPQ _ _ (h.layout hf)⟩

/-! ### Appending instructions -/

@[simp] theorem size_emit (st : State) (i : Instr) :
    (st.emit i).draft.code.size = st.draft.code.size + 1 := Array.size_push ..

@[simp] theorem labels_emit (st : State) (i : Instr) :
    (st.emit i).draft.labels = st.draft.labels := rfl

@[simp] theorem visible_emit (st : State) (i : Instr) : (st.emit i).visible = st.visible := rfl

@[simp] theorem locals_emit (st : State) (i : Instr) :
    (st.emit i).draft.locals = st.draft.locals := rfl

theorem grows_emit (st : State) (i : Instr) : Grows st (st.emit i) :=
  { Grows.refl st with code := within_push _ _ }

theorem Final.emit {st : State} {i : Instr} {m : Method} {strings : Array String}
    (h : Final (st.emit i) m strings) : m.code[st.draft.code.size]? = some i :=
  h.code _ _ (Array.getElem?_push_size ..)

theorem lays_emit (st : State) (i : Instr) :
    Lays st (st.emit i) fun m _ => m.code[st.draft.code.size]? = some i :=
  ⟨grows_emit st i, rfl, rfl, fun hf => hf.emit⟩

theorem emitAll_cons (st : State) (i : Instr) (is : List Instr) :
    st.emitAll (i :: is) = (st.emit i).emitAll is := rfl

theorem size_emitAll (is : List Instr) : ∀ st : State,
    (st.emitAll is).draft.code.size = st.draft.code.size + is.length := by
  induction is with
  | nil => exact fun _ => rfl
  | cons i is ih =>
    intro st
    rw [emitAll_cons, ih, size_emit, List.length_cons]
    omega

theorem lays_emitAll (is : List Instr) : ∀ st : State,
    Lays st (st.emitAll is) fun m _ => CodeAt m st.draft.code.size is := by
  induction is with
  | nil => exact fun st => ⟨Grows.refl st, rfl, rfl, fun _ k i hk => by simp at hk⟩
  | cons i is ih =>
    intro st
    refine ((lays_emit st i).trans (ih (st.emit i))).imp ?_
    rintro m _ ⟨hi, his⟩ k j hk
    cases k with
    | zero =>
      cases hk
      exact hi
    | succ k =>
      rw [← his k j hk, size_emit]
      congr 1
      omega

/-! ### Labels -/

@[simp] theorem size_mark (st : State) (l : Nat) :
    (st.mark l).draft.code.size = st.draft.code.size + 1 := Array.size_push ..

@[simp] theorem visible_mark (st : State) (l : Nat) : (st.mark l).visible = st.visible := rfl

@[simp] theorem locals_mark (st : State) (l : Nat) :
    (st.mark l).draft.locals = st.draft.locals := rfl

@[simp] theorem size_labels_mark (st : State) (l : Nat) :
    (st.mark l).draft.labels.size = st.draft.labels.size := Array.size_setIfInBounds ..

theorem labels_mark (st : State) (l k : Nat) (hl : l < st.draft.labels.size) :
    (st.mark l).draft.labels[k]? =
      if k = l then some (some st.draft.code.size) else st.draft.labels[k]? :=
  st.draft.labels_mark hl k

theorem keeps_mark {st : State} {l : Nat} (hl : st.draft.labels[l]? = some none) :
    Keeps st (st.mark l) := by
  have hlt : l < st.draft.labels.size := (Array.getElem?_eq_some_iff.mp hl).1
  refine ⟨within_push _ _, Within.refl _, Within.refl _, fun k p hk => ?_⟩
  rw [labels_mark st l k hlt, if_neg, hk]
  rintro rfl
  rw [hl] at hk
  cases hk

theorem Final.mark {st : State} {l : Nat} {m : Method} {strings : Array String}
    (h : Final (st.mark l) m strings) (hl : l < st.draft.labels.size) :
    LabelAt m st.draft.code.size l := by
  refine ⟨h.code _ _ (Array.getElem?_push_size ..), h.marked l _ ?_⟩
  rw [labels_mark st l l hl, if_pos rfl]

@[simp] theorem fst_newLabel (st : State) : st.newLabel.1 = st.draft.labels.size := rfl

@[simp] theorem size_labels_newLabel (st : State) :
    st.newLabel.2.draft.labels.size = st.draft.labels.size + 1 := Array.size_push ..

theorem labels_newLabel (st : State) (k : Nat) : st.newLabel.2.draft.labels[k]? =
    if k = st.draft.labels.size then some none else st.draft.labels[k]? :=
  st.draft.labels_newLabel k

/-- The state has grown, but some of its new labels are not marked yet. -/
structure Pending (st cur : State) (waits : Nat → Prop) : Prop where
  code : Within st.draft.code cur.draft.code
  locals : Within st.draft.locals cur.draft.locals
  pool : Within st.pool cur.pool
  head : cur.draft.name = st.draft.name ∧ cur.draft.params = st.draft.params ∧
    cur.draft.returnType = st.draft.returnType
  size_le : st.draft.labels.size ≤ cur.draft.labels.size
  label : ∀ l < st.draft.labels.size, cur.draft.labels[l]? = st.draft.labels[l]?
  fresh : ∀ l, st.draft.labels.size ≤ l → l < cur.draft.labels.size → ¬ waits l →
    ∃ p, cur.draft.labels[l]? = some (some p)
  waiting : ∀ l, waits l → st.draft.labels.size ≤ l ∧ cur.draft.labels[l]? = some none

namespace Pending

theorem refl (st : State) : Pending st st (· ∈ []) :=
  ⟨Within.refl _, Within.refl _, Within.refl _, ⟨rfl, rfl, rfl⟩, Nat.le_refl _, fun _ _ => rfl,
    fun l h h' => absurd h' (by omega), fun _ h => absurd h List.not_mem_nil⟩

variable {st cur : State} {waits : Nat → Prop} {l : Nat} {ls : List Nat}

theorem newLabel (h : Pending st cur (· ∈ ls)) :
    Pending st cur.newLabel.2 (· ∈ ls ++ [cur.newLabel.1]) := by
  refine ⟨h.code, h.locals, h.pool, h.head, ?_, fun k hk => ?_, fun k hk hk' hw => ?_,
    fun k hw => ?_⟩
  · rw [size_labels_newLabel]
    exact Nat.le_succ_of_le h.size_le
  · have := h.size_le
    rw [labels_newLabel, if_neg (by omega), h.label k hk]
  · rw [size_labels_newLabel] at hk'
    rw [List.mem_append, List.mem_singleton, not_or, fst_newLabel] at hw
    rw [labels_newLabel, if_neg hw.2]
    exact h.fresh k hk (by omega) hw.1
  · rw [labels_newLabel]
    rcases List.mem_append.mp hw with hw | hw
    · obtain ⟨hk, hnone⟩ := h.waiting k hw
      have hlt : k < cur.draft.labels.size := (Array.getElem?_eq_some_iff.mp hnone).1
      rw [if_neg (by omega)]
      exact ⟨hk, hnone⟩
    · obtain rfl := List.mem_singleton.mp hw
      rw [fst_newLabel, if_pos rfl]
      exact ⟨h.size_le, rfl⟩

theorem perm {ls' : List Nat} (h : Pending st cur (· ∈ ls)) (hls : ls.Perm ls') :
    Pending st cur (· ∈ ls') :=
  ⟨h.code, h.locals, h.pool, h.head, h.size_le, h.label,
    fun k hk hk' hw => h.fresh k hk hk' fun hmem => hw (hls.mem_iff.mp hmem),
    fun k hw => h.waiting k (hls.mem_iff.mpr hw)⟩

theorem grows {cur' : State} (h : Pending st cur waits) (hg : Grows cur cur') :
    Pending st cur' waits := by
  refine ⟨h.code.trans hg.code, h.locals.trans hg.locals, h.pool.trans hg.pool, ?_,
    Nat.le_trans h.size_le hg.size_le, fun l hl => ?_, fun l hl hl' hw => ?_, fun l hw => ?_⟩
  · obtain ⟨h₁, h₂, h₃⟩ := h.head
    obtain ⟨h₁', h₂', h₃'⟩ := hg.head
    exact ⟨h₁'.trans h₁, h₂'.trans h₂, h₃'.trans h₃⟩
  · have := h.size_le
    rw [hg.label l (by omega), h.label l hl]
  · by_cases hlt : l < cur.draft.labels.size
    · rw [hg.label l hlt]
      exact h.fresh l hl hlt hw
    · exact hg.fresh l (by omega) hl'
  · obtain ⟨hl, hnone⟩ := h.waiting l hw
    have hlt : l < cur.draft.labels.size := (Array.getElem?_eq_some_iff.mp hnone).1
    exact ⟨hl, (hg.label l hlt).trans hnone⟩

theorem mark (h : Pending st cur (· ∈ l :: ls)) (hl : l ∉ ls) :
    Pending st (cur.mark l) (· ∈ ls) := by
  obtain ⟨hle, hnone⟩ := h.waiting l List.mem_cons_self
  have hlt : l < cur.draft.labels.size := (Array.getElem?_eq_some_iff.mp hnone).1
  refine ⟨h.code.trans (within_push _ _), h.locals, h.pool, h.head, ?_, fun k hk => ?_,
    fun k hk hk' hw => ?_, fun k hk => ?_⟩
  · rw [size_labels_mark]
    exact h.size_le
  · rw [labels_mark cur l k hlt, if_neg (by omega), h.label k hk]
  · rw [labels_mark cur l k hlt]
    split
    · exact ⟨_, rfl⟩
    · next hne =>
      rw [size_labels_mark] at hk'
      exact h.fresh k hk hk' fun hmem => hw ((List.mem_cons.mp hmem).resolve_left hne)
  · have hne : k ≠ l := by
      rintro rfl
      exact hl hk
    rw [labels_mark cur l k hlt, if_neg hne]
    exact h.waiting k (List.mem_cons_of_mem l hk)

theorem restore (h : Pending st cur waits) (visible : Visible) :
    Pending st (cur.restore visible) waits :=
  ⟨h.code, h.locals, h.pool, h.head, h.size_le, h.label, h.fresh, h.waiting⟩

theorem close (h : Pending st cur (· ∈ [])) : Grows st cur :=
  ⟨h.code, h.locals, h.pool, h.head, h.size_le, h.label,
    fun l hl hl' => h.fresh l hl hl' List.not_mem_nil⟩

theorem keeps_mark (h : Pending st cur waits) (hw : waits l) : Keeps cur (cur.mark l) :=
  Lowering.keeps_mark (h.waiting l hw).2

theorem lt_size (h : Pending st cur waits) (hw : waits l) : l < cur.draft.labels.size :=
  (Array.getElem?_eq_some_iff.mp (h.waiting l hw).2).1

end Pending

/-- The point that a state has reached. -/
def State.point (st : State) : Point := ⟨st.draft.code.size, st.visible, st.draft.locals.size⟩

/-- The second state is the first with new labels, which wait to be marked. -/
structure WithLabels (st st' : State) (ls : List Nat) : Prop where
  pending : Pending st st' (· ∈ ls)
  ordered : ls.Pairwise (· < ·)
  point : st'.point = st.point

namespace WithLabels

variable {st st' : State} {ls : List Nat}

theorem refl (st : State) : WithLabels st st [] := ⟨.refl st, .nil, rfl⟩

theorem newLabel (h : WithLabels st st' ls) :
    WithLabels st st'.newLabel.2 (ls ++ [st'.newLabel.1]) := by
  refine ⟨h.pending.newLabel, List.pairwise_append.mpr ⟨h.ordered, List.pairwise_singleton .., ?_⟩,
    h.point⟩
  intro l hl l' hl'
  obtain rfl := List.mem_singleton.mp hl'
  exact h.pending.lt_size hl

theorem nodup (h : WithLabels st st' ls) : ls.Nodup := h.ordered.imp Nat.ne_of_lt

theorem visible (h : WithLabels st st' ls) : st'.visible = st.visible :=
  congrArg Point.visible h.point

theorem size (h : WithLabels st st' ls) : st'.draft.code.size = st.draft.code.size :=
  congrArg Point.pos h.point

end WithLabels

/-! ### Truth values -/

theorem code_pushTruth (st : State) (branch : Nat → Instr) (taken : Int64) :
    (st.pushTruth branch taken).draft.code =
      st.draft.code ++ #[branch st.draft.labels.size, .label (st.draft.labels.size + 1),
        .pushInt (1 - taken), .jump (st.draft.labels.size + 2), .label st.draft.labels.size,
        .pushInt taken, .label (st.draft.labels.size + 2)] := by
  apply Array.ext'
  simp [State.pushTruth, State.newLabel, State.emit, State.mark, Draft.newLabel, Draft.emit,
    Draft.mark]

theorem labels_pushTruth (st : State) (branch : Nat → Instr) (taken : Int64) :
    (st.pushTruth branch taken).draft.labels =
      st.draft.labels ++ #[some (st.draft.code.size + 4), some (st.draft.code.size + 1),
        some (st.draft.code.size + 6)] := by
  apply Array.ext_getElem?
  intro k
  simp only [State.pushTruth, State.newLabel, State.emit, State.mark, Draft.newLabel, Draft.emit,
    Draft.mark, Array.getElem?_setIfInBounds, Array.getElem?_push, Array.size_push,
    Array.size_setIfInBounds, Array.getElem?_append]
  grind

theorem rest_pushTruth (st : State) (branch : Nat → Instr) (taken : Int64) :
    (st.pushTruth branch taken).visible = st.visible ∧
      (st.pushTruth branch taken).pool = st.pool ∧
      (st.pushTruth branch taken).draft.locals = st.draft.locals ∧
      (st.pushTruth branch taken).draft.name = st.draft.name ∧
      (st.pushTruth branch taken).draft.params = st.draft.params ∧
      (st.pushTruth branch taken).draft.returnType = st.draft.returnType := by
  simp [State.pushTruth, State.newLabel, State.emit, State.mark, Draft.newLabel, Draft.emit,
    Draft.mark]

theorem lays_pushTruth (st : State) (branch : Nat → Instr) (taken : Int64) :
    Lays st (st.pushTruth branch taken) fun m _ =>
      TruthCode m branch taken st.draft.code.size (st.pushTruth branch taken).draft.code.size := by
  have hcode := code_pushTruth st branch taken
  have hlabels := labels_pushTruth st branch taken
  have hsize : (st.pushTruth branch taken).draft.code.size = st.draft.code.size + 7 := by
    rw [hcode, Array.size_append]
    rfl
  obtain ⟨hvis, hpool, hloc, hhead⟩ := rest_pushTruth st branch taken
  generalize st.pushTruth branch taken = st' at hcode hlabels hsize hvis hpool hloc hhead ⊢
  refine ⟨⟨?_, hloc ▸ Within.refl _, hpool ▸ Within.refl _, hhead, ?_, fun l hl => ?_,
    fun l hl hl' => ?_⟩, hvis, hloc, fun hf => ⟨st.draft.labels.size, st.draft.labels.size + 1,
      st.draft.labels.size + 2, fun k i hk => hf.code _ _ ?_, hf.marked _ _ ?_, hf.marked _ _ ?_,
      hsize⟩⟩
  · intro k i hi
    have hk : k < st.draft.code.size := (Array.getElem?_eq_some_iff.mp hi).1
    rw [hcode, Array.getElem?_append_left hk, hi]
  · rw [hlabels, Array.size_append]
    omega
  · rw [hlabels, Array.getElem?_append_left hl]
  · rw [hlabels, Array.size_append] at hl'
    rw [hlabels, Array.getElem?_append_right hl]
    have hlt : l - st.draft.labels.size < 3 := by
      have h3 : l < st.draft.labels.size + 3 := hl'
      omega
    generalize l - st.draft.labels.size = j at hlt
    match j with
    | 0 | 1 | 2 => exact ⟨_, rfl⟩
  · rw [hcode, Array.getElem?_append_right (by omega), Nat.add_sub_cancel_left]
    simpa using hk
  · rw [hlabels, Array.getElem?_append_right (by omega)]
    simp
  · rw [hlabels, Array.getElem?_append_right (by omega)]
    simp

/-! ### Expressions -/

theorem lays_intern (st : State) (s : String) :
    Lays st (st.intern s).2 fun _ strings => strings[(st.intern s).1]? = some s := by
  unfold State.intern
  split
  · next id hid =>
    refine ⟨Grows.refl st, rfl, rfl, fun hf => hf.pool _ _ ?_⟩
    obtain ⟨hlt, heq, _⟩ := Array.findIdx?_eq_some_iff_getElem.mp hid
    rw [Array.getElem?_eq_getElem hlt]
    exact congrArg some (of_decide_eq_true heq)
  · exact ⟨{ Grows.refl st with pool := within_push _ _ }, rfl, rfl,
      fun hf => hf.pool _ _ (Array.getElem?_push_size ..)⟩

theorem lays_literal (st : State) (v : Literal) :
    Lays st (st.literal v) fun m strings =>
      (st.literal v).draft.code.size = st.draft.code.size + 1 ∧
        ∃ i, LiteralInstr strings i v ∧ m.code[st.draft.code.size]? = some i := by
  cases v with
  | integer v => exact (lays_emit st _).imp fun m _ hi => ⟨size_emit .., _, rfl, hi⟩
  | float bits => exact (lays_emit st _).imp fun m _ hi => ⟨size_emit .., _, rfl, hi⟩
  | boolean b => exact (lays_emit st _).imp fun m _ hi => ⟨size_emit .., _, rfl, hi⟩
  | string s =>
    have hcode : (st.intern s).2.draft = st.draft := by
      unfold State.intern
      split <;> rfl
    refine ((lays_intern st s).trans (lays_emit _ (.pushStr (st.intern s).1))).imp ?_
    rintro m strings ⟨hs, hi⟩
    rw [hcode] at hi
    refine ⟨?_, _, ⟨_, rfl, hs⟩, hi⟩
    show ((st.intern s).2.emit _).draft.code.size = _
    rw [size_emit, hcode]

theorem resolve_eq_ok {st : State} {x : String} {y : Binding} (h : st.resolve x = .ok y) :
    st.visible.lookup x = some y := by
  unfold State.resolve at h
  split at h
  · next hy => rw [hy, Except.ok.inj h]
  · cases h

theorem bind_operand_eq_ok {β : Type} {x : Except Fault (Bool × State)} {ty target : Ty}
    {f : State → Except Fault β} {b : β} (h : (x >>= fun r => operand ty target r >>= f) = .ok b) :
    ∃ st st', x = .ok (true, st) ∧ operand ty target (true, st) = .ok st' ∧ f st' = .ok b := by
  obtain ⟨⟨leaves, st⟩, hx, h⟩ := bind_eq_ok.mp h
  obtain ⟨st', ho, hf⟩ := bind_eq_ok.mp h
  cases leaves with
  | false => cases ho
  | true => exact ⟨st, st', hx, ho, hf⟩

theorem Lays.operand {ty target : Ty} {st st₁ st₂ : State}
    {P : Method → Array String → Nat → Nat → Prop}
    (h : Lays st st₁ fun m strings => P m strings st.draft.code.size st₁.draft.code.size)
    (ho : operand ty target (true, st₁) = .ok st₂) :
    Lays st st₂ fun m strings =>
      OperandCode m (P m strings) ty target st.draft.code.size st₂.draft.code.size := by
  have hw : Lays st₁ st₂ fun m _ =>
      Widened m ty target st₁.draft.code.size st₂.draft.code.size := by
    obtain rfl : _ = st₂ := Except.ok.inj ho
    unfold Widened
    split
    · exact (lays_emit st₁ _).imp fun m _ hi => ⟨hi, size_emit ..⟩
    · exact ⟨Grows.refl st₁, rfl, rfl, fun _ => rfl⟩
  exact (h.trans hw).imp fun m strings hm => ⟨_, hm.1, hm.2⟩

mutual

/-- The code of an expression is laid out. -/
theorem lowerValue_layout {M : Methods} :
    ∀ {e : Expr} {st st' : State} {leaves : Bool}, lowerValue M st e = .ok (leaves, st') →
      Lays st st' fun m strings =>
        ExprCode M m strings st.visible e leaves st.draft.code.size st'.draft.code.size
  | .literal n v, st, st', leaves, h => by
    obtain ⟨rfl, rfl⟩ := Prod.mk.inj (Except.ok.inj h)
    exact (lays_literal st v).imp fun m strings hl => ⟨rfl, hl⟩
  | .name n x, st, st', leaves, h => by
    obtain ⟨y, hy, h⟩ := bind_eq_ok.mp h
    obtain ⟨rfl, rfl⟩ := Prod.mk.inj (Except.ok.inj h)
    exact (lays_emit st _).imp fun m strings hi => ⟨rfl, size_emit .., y, resolve_eq_ok hy, hi⟩
  | .arith n op l r, st, st', leaves, h => by
    unfold lowerValue at h
    obtain ⟨i, hi, h⟩ := bind_eq_ok.mp h
    obtain ⟨st₁, st₂, hl, ho, h⟩ := bind_operand_eq_ok h
    obtain ⟨st₃, st₄, hr, ho', h⟩ := bind_operand_eq_ok h
    obtain ⟨rfl, rfl⟩ := Prod.mk.inj (Except.ok.inj h)
    have hlc := (lowerValue_layout hl).operand ho
    have hrc := (lowerValue_layout hr).operand ho'
    rw [hlc.visible] at hrc
    refine ((hlc.trans hrc).trans (lays_emit st₄ i)).imp ?_
    rintro m strings ⟨⟨hl, hr⟩, hic⟩
    exact ⟨rfl, i, _, _, hi, hl, hr, hic, size_emit ..⟩
  | .compare n op l r, st, st', leaves, h => by
    unfold lowerValue at h
    obtain ⟨⟨ty, between, numeric⟩, hp, h⟩ := bind_eq_ok.mp h
    obtain ⟨st₁, st₂, hl, ho, h⟩ := bind_operand_eq_ok h
    obtain ⟨st₃, st₄, hr, ho', h⟩ := bind_operand_eq_ok h
    obtain ⟨rfl, rfl⟩ := Prod.mk.inj (Except.ok.inj h)
    have hlc := (lowerValue_layout hl).operand ho
    have hrc := (lowerValue_layout hr).operand ho'
    rw [hlc.visible] at hrc
    refine (((hlc.trans hrc).trans (lays_emitAll between st₄)).trans (lays_pushTruth ..)).imp ?_
    rintro m strings ⟨⟨⟨hl, hr⟩, hb⟩, ht⟩
    rw [size_emitAll] at ht
    exact ⟨rfl, ty, between, numeric, _, _, hp, hl, hr, hb, ht⟩
  | .logic n op l r, st, st', leaves, h => by
    unfold lowerValue at h
    obtain ⟨st₁, st₂, hl, ho, h⟩ := bind_operand_eq_ok h
    obtain ⟨st₃, st₄, hr, ho', h⟩ := bind_operand_eq_ok h
    obtain ⟨rfl, rfl⟩ := Prod.mk.inj (Except.ok.inj h)
    have hlc := (lowerValue_layout hl).operand ho
    have hrc := (lowerValue_layout hr).operand ho'
    rw [hlc.visible] at hrc
    refine (((hlc.trans hrc).trans (lays_emit st₄ _)).trans (lays_pushTruth ..)).imp ?_
    rintro m strings ⟨⟨⟨hl, hr⟩, hi⟩, ht⟩
    rw [size_emit] at ht
    exact ⟨rfl, _, _, hl, hr, hi, ht⟩
  | .not n x, st, st', leaves, h => by
    unfold lowerValue at h
    obtain ⟨st₁, st₂, hx, ho, h⟩ := bind_operand_eq_ok h
    obtain ⟨rfl, rfl⟩ := Prod.mk.inj (Except.ok.inj h)
    have hxc := (lowerValue_layout hx).operand ho
    refine (hxc.trans (lays_pushTruth ..)).imp ?_
    rintro m strings ⟨hx, ht⟩
    exact ⟨rfl, _, hx, ht⟩
  | .index n x is, st, st', leaves, h => by
    unfold lowerValue at h
    obtain ⟨y, hy, h⟩ := bind_eq_ok.mp h
    obtain ⟨st₁, his, h⟩ := bind_eq_ok.mp h
    obtain ⟨i, hi, h⟩ := bind_eq_ok.mp h
    obtain ⟨rfl, rfl⟩ := Prod.mk.inj (Except.ok.inj h)
    have hload := lays_emit st y.slot.load
    refine ((hload.trans (lowerAll_layout his)).trans (lays_emit st₁ i)).imp ?_
    rintro m strings ⟨⟨hl, his⟩, hic⟩
    rw [size_emit] at his
    exact ⟨rfl, y, i, _, resolve_eq_ok hy, hl, his, hi, hic, size_emit ..⟩
  | .call n f args, st, st', leaves, h => by
    unfold lowerValue at h
    obtain ⟨⟨targets, code, returns⟩, hp, h⟩ := bind_eq_ok.mp h
    obtain ⟨st₁, hargs, h⟩ := bind_eq_ok.mp h
    obtain ⟨is, rfl, h⟩ := bind_eq_ok.mp h
    obtain ⟨rfl, rfl⟩ := Prod.mk.inj (Except.ok.inj h)
    refine ((lowerAll_layout hargs).trans (lays_emitAll is st₁)).imp ?_
    rintro m strings ⟨hargs, his⟩
    exact ⟨targets, is, _, hp, hargs, his, size_emitAll ..⟩
  | .newArray n e dims, st, st', leaves, h => by
    unfold lowerValue at h
    obtain ⟨st₁, hdims, h⟩ := bind_eq_ok.mp h
    split at h
    · next hrank =>
      obtain ⟨rfl, rfl⟩ := Prod.mk.inj (Except.ok.inj h)
      refine ((lowerAll_layout hdims).trans (lays_emit st₁ _)).imp ?_
      rintro m strings ⟨hdims, hi⟩
      exact ⟨rfl, _, hdims, hrank, hi, size_emit ..⟩
    · cases h

theorem lowerAll_layout {M : Methods} :
    ∀ {ts : List Ty} {es : List Expr} {st st' : State}, lowerAll M st ts es = .ok st' →
      Lays st st' fun m strings =>
        ArgsCode M m strings st.visible ts es st.draft.code.size st'.draft.code.size
  | [], _, st, st', h => by
    rw [lowerAll] at h
    · obtain rfl := Except.ok.inj h
      exact ⟨Grows.refl st, rfl, rfl, fun _ => by simp [ArgsCode]⟩
    · simp
  | _ :: _, [], st, st', h => by
    rw [lowerAll] at h
    · obtain rfl := Except.ok.inj h
      exact ⟨Grows.refl st, rfl, rfl, fun _ => by simp [ArgsCode]⟩
    · simp
  | t :: ts, e :: es, st, st', h => by
    unfold lowerAll at h
    obtain ⟨st₁, st₂, he, ho, h⟩ := bind_operand_eq_ok h
    have hec := (lowerValue_layout he).operand ho
    have hrest := lowerAll_layout h
    rw [hec.visible] at hrest
    refine (hec.trans hrest).imp ?_
    rintro m strings ⟨he, hes⟩
    exact ⟨_, he, hes⟩

end

theorem lowerAs_layout {M : Methods} {e : Expr} {target : Ty} {st st' : State}
    (h : lowerAs M st e target = .ok st') : Lays st st' fun m strings =>
      AsCode M m strings st.visible e target st.draft.code.size st'.draft.code.size := by
  unfold lowerAs at h
  obtain ⟨⟨leaves, st₁⟩, he, ho⟩ := bind_eq_ok.mp h
  cases leaves with
  | false => cases ho
  | true => exact (lowerValue_layout he).operand ho

/-! ### Statements -/

/-- The state has grown by the code of a statement. -/
structure StmtLays (st st' : State) (P : Method → Array String → Prop) : Prop where
  grows : Grows st st'
  layout : ∀ {m : Method} {strings : Array String}, Final st' m strings → P m strings

theorem Final.restore {st : State} {visible : Visible} {m : Method} {strings : Array String}
    (h : Final (st.restore visible) m strings) : Final st m strings :=
  ⟨h.code, h.locals, h.pool, h.marked⟩

theorem lays_discarded (leaves : Bool) (st : State) :
    Lays st (discarded (leaves, st)) fun m _ =>
      DiscardCode m leaves st.draft.code.size (discarded (leaves, st)).draft.code.size := by
  unfold discarded DiscardCode
  cases leaves with
  | false => exact ⟨Grows.refl st, rfl, rfl, fun _ => rfl⟩
  | true => exact (lays_emit st _).imp fun m _ hi => ⟨hi, size_emit ..⟩

theorem declare_layout {st st' : State} {x : String} {ty : Ty} {slot : Nat}
    (h : st.declare x ty = .ok (slot, st')) :
    slot = st.draft.locals.size ∧
      st'.point = ⟨st.draft.code.size, (x, ⟨.local slot, ty⟩) :: st.visible, slot + 1⟩ ∧
      StmtLays st st' fun m _ => m.locals[slot]? = some ⟨x, ty⟩ := by
  unfold State.declare Draft.allocLocal at h
  dsimp only at h
  split at h
  · obtain ⟨rfl, rfl⟩ := Prod.mk.inj (Except.ok.inj h)
    refine ⟨rfl, ?_, { Grows.refl st with locals := within_push _ _ }, fun hf => ?_⟩
    · simp [State.point]
    · exact hf.locals _ _ (Array.getElem?_push_size ..)
  · cases h

theorem Lays.point {st st' : State} {P : Method → Array String → Prop} (h : Lays st st' P) :
    st'.point = { st.point with pos := st'.draft.code.size } := by
  unfold State.point
  rw [h.visible, h.locals]

theorem element_layout {M : Methods} {st st' : State} {x : String} {is : List Expr} {value : Expr}
    {span target : Span} {returnType : Ty} (h : lowerElement M st x is value = .ok st') :
    StmtLays st st' fun m strings => StmtCode M m strings returnType st.point
      (.assignElement span x is target value) st'.point := by
  unfold lowerElement at h
  obtain ⟨y, hy, h⟩ := bind_eq_ok.mp h
  cases hty : y.ty with
  | array element rank =>
    rw [hty] at h
    dsimp only at h
    by_cases hrank : rank = is.length
    · rw [if_neg (by simpa using hrank)] at h
      obtain ⟨st₁, his, h⟩ := bind_eq_ok.mp h
      obtain ⟨st₂, hv, h⟩ := bind_eq_ok.mp h
      obtain rfl := Except.ok.inj h
      have hload := lays_emit st y.slot.load
      have hisc := lowerAll_layout his
      have hvc := lowerAs_layout hv
      rw [hisc.visible] at hvc
      have hall := ((hload.trans hisc).trans hvc).trans
        (lays_emit st₂ (if rank = 1 then .storeElem else .arraySet rank))
      refine ⟨hall.grows, fun {m strings} hf => ?_⟩
      obtain ⟨⟨⟨hl, hic⟩, hvc⟩, hs⟩ := hall.layout hf
      rw [size_emit] at hic
      rw [hrank] at hs hty
      exact ⟨y, element, _, _, resolve_eq_ok hy, hty, hl, hic, hvc, hs,
        hall.point.trans (by rw [size_emit])⟩
    · rw [if_pos hrank] at h
      cases h
  | _ =>
    rw [hty] at h
    cases h

/-! ### Control structures -/

@[simp] theorem point_emit (st : State) (i : Instr) :
    (st.emit i).point = { st.point with pos := st.point.pos + 1 } := by
  simp [State.point]

@[simp] theorem point_mark (st : State) (l : Nat) :
    (st.mark l).point = { st.point with pos := st.point.pos + 1 } := by
  simp [State.point]

@[simp] theorem point_restore (st : State) (visible : Visible) :
    (st.restore visible).point = { st.point with visible } := rfl

/-- The state has grown by the code of a list of statements. -/
abbrev BodyLays (M : Methods) (returnType : Ty) (st : State) (ss : List Stmt) (st' : State) :
    Prop :=
  StmtLays st st' fun m strings => StmtsCode M m strings returnType st.point ss st'.point

section

-- The labels of a control structure are marked in their order.  A method that is finished after
-- the last mark is finished after each earlier one, so the parts are laid out from the last to the
-- first.
variable {M : Methods} {returnType : Ty} {st st₀ st₁ st₂ st₃ : State} {span : Span} {cond : Expr}
  {body other : List Stmt}

theorem ifThen_layout {yes stop : Nat} (h₀ : WithLabels st st₀ [yes, stop])
    (hcond : lowerAs M st₀ cond .boolean = .ok st₁)
    (hbody : BodyLays M returnType
      (((st₁.emit (.branchIfTrue yes)).emit (.jump stop)).mark yes) body st₂) :
    StmtLays st ((st₂.restore st.visible).mark stop) fun m strings =>
      StmtCode M m strings returnType st.point (.ifThen span cond body)
        ((st₂.restore st.visible).mark stop).point := by
  obtain ⟨hfirst, -⟩ := List.nodup_cons.mp h₀.nodup
  have hvalue := lowerAs_layout hcond
  have htest := hvalue.trans ((lays_emit st₁ (.branchIfTrue yes)).trans (lays_emit _ (.jump stop)))
  have h₁ := h₀.pending.grows htest.grows
  have h₂ := ((h₁.mark hfirst).grows hbody.grows).restore st.visible
  refine ⟨(h₂.mark List.not_mem_nil).close, fun {m strings} hf => ?_⟩
  have hf₂ := (hf.keeps (h₂.keeps_mark (.head _))).restore
  have hf₁ := hf₂.keeps hbody.grows.keeps
  obtain ⟨hcode, hbranch, hjump⟩ := htest.layout (hf₁.keeps (h₁.keeps_mark (.head _)))
  have hinside := hbody.layout hf₂
  have hpoint : (((st₁.emit (.branchIfTrue yes)).emit (.jump stop)).mark yes).point =
      { st.point with pos := st₁.draft.code.size + 3 } := by
    simp [hvalue.point, h₀.point]
  rw [h₀.visible, h₀.size] at hcode
  rw [hpoint] at hinside
  have hyes := hf₁.mark (h₁.lt_size (.head _))
  rw [size_emit] at hjump
  rw [size_emit, size_emit] at hyes
  refine ⟨yes, stop, st₁.draft.code.size, st₂.point, hcode, hbranch, hjump, hyes, hinside,
    hf.mark (h₂.lt_size (.head _)), ?_⟩
  rw [point_mark, point_restore]
  rfl

theorem ifElse_layout {yes stop : Nat} (h₀ : WithLabels st st₀ [yes, stop])
    (hcond : lowerAs M st₀ cond .boolean = .ok st₁)
    (hother : BodyLays M returnType (st₁.emit (.branchIfTrue yes)) other st₂)
    (hbody : BodyLays M returnType
      (((st₂.restore st.visible).emit (.jump stop)).mark yes) body st₃) :
    StmtLays st ((st₃.restore st.visible).mark stop) fun m strings =>
      StmtCode M m strings returnType st.point (.ifElse span cond body other)
        ((st₃.restore st.visible).mark stop).point := by
  obtain ⟨hfirst, -⟩ := List.nodup_cons.mp h₀.nodup
  have hvalue := lowerAs_layout hcond
  have htest := hvalue.trans (lays_emit st₁ (.branchIfTrue yes))
  have hjump := lays_emit (st₂.restore st.visible) (.jump stop)
  have h₁ := (((h₀.pending.grows htest.grows).grows hother.grows).restore st.visible).grows
    hjump.grows
  have h₂ := ((h₁.mark hfirst).grows hbody.grows).restore st.visible
  refine ⟨(h₂.mark List.not_mem_nil).close, fun {m strings} hf => ?_⟩
  have hf₃ := (hf.keeps (h₂.keeps_mark (.head _))).restore
  have hf₂ := hf₃.keeps hbody.grows.keeps
  have hf₁ := hf₂.keeps (h₁.keeps_mark (.head _))
  have hf₀ := (hf₁.keeps hjump.grows.keeps).restore
  obtain ⟨hcode, hbranch⟩ := htest.layout (hf₀.keeps hother.grows.keeps)
  have helse := hother.layout hf₀
  have hthen := hbody.layout hf₃
  have hpoint₁ : (st₁.emit (.branchIfTrue yes)).point =
      { st.point with pos := st₁.draft.code.size + 1 } := by
    simp [hvalue.point, h₀.point]
  have hpoint₂ : (((st₂.restore st.visible).emit (.jump stop)).mark yes).point =
      ⟨st₂.point.pos + 2, st.point.visible, st₂.point.slots⟩ := by
    rw [point_mark, point_emit, point_restore]
    rfl
  rw [h₀.visible, h₀.size] at hcode
  rw [hpoint₁] at helse
  rw [hpoint₂] at hthen
  have hyes := hf₂.mark (h₁.lt_size (.head _))
  rw [size_emit] at hyes
  refine ⟨yes, stop, st₁.draft.code.size, st₂.point, st₃.point, hcode, hbranch, helse,
    hjump.layout hf₁, hyes, hthen, hf.mark (h₂.lt_size (.head _)), ?_⟩
  rw [point_mark, point_restore]
  rfl

theorem while_layout {test yes stop : Nat} (h₀ : WithLabels st st₀ [test, yes, stop])
    (hcond : lowerAs M (st₀.mark test) cond .boolean = .ok st₁)
    (hbody : BodyLays M returnType
      (((st₁.emit (.branchIfTrue yes)).emit (.jump stop)).mark yes) body st₂) :
    StmtLays st (((st₂.restore st.visible).emit (.jump test)).mark stop) fun m strings =>
      StmtCode M m strings returnType st.point (.while span cond body)
        (((st₂.restore st.visible).emit (.jump test)).mark stop).point := by
  obtain ⟨hfirst, hrest⟩ := List.nodup_cons.mp h₀.nodup
  obtain ⟨hsecond, -⟩ := List.nodup_cons.mp hrest
  have hvalue := lowerAs_layout hcond
  have hbranches := hvalue.trans
    ((lays_emit st₁ (.branchIfTrue yes)).trans (lays_emit _ (.jump stop)))
  have hback := lays_emit (st₂.restore st.visible) (.jump test)
  have h₁ := (h₀.pending.mark hfirst).grows hbranches.grows
  have h₂ := (((h₁.mark hsecond).grows hbody.grows).restore st.visible).grows hback.grows
  refine ⟨(h₂.mark List.not_mem_nil).close, fun {m strings} hf => ?_⟩
  have hf₃ := hf.keeps (h₂.keeps_mark (.head _))
  have hf₂ := (hf₃.keeps hback.grows.keeps).restore
  have hf₁ := hf₂.keeps hbody.grows.keeps
  have hf₀ := hf₁.keeps (h₁.keeps_mark (.head _))
  obtain ⟨hcode, hbranch, hjump⟩ := hbranches.layout hf₀
  have hinside := hbody.layout hf₂
  have hpoint : (((st₁.emit (.branchIfTrue yes)).emit (.jump stop)).mark yes).point =
      { st.point with pos := st₁.draft.code.size + 3 } := by
    simp [hvalue.point, h₀.point]
  rw [visible_mark, size_mark, h₀.visible, h₀.size] at hcode
  rw [hpoint] at hinside
  have hhead := (hf₀.keeps hbranches.grows.keeps).mark (h₀.pending.lt_size (.head _))
  have hyes := hf₁.mark (h₁.lt_size (.head _))
  have hend := hf.mark (h₂.lt_size (.head _))
  rw [h₀.size] at hhead
  rw [size_emit] at hjump hend
  rw [size_emit, size_emit] at hyes
  refine ⟨test, yes, stop, st₁.draft.code.size, st₂.point, hhead, hcode, hbranch, hjump, hyes,
    hinside, hback.layout hf₃, hend, ?_⟩
  rw [point_mark, point_emit, point_restore]
  rfl

theorem doWhile_layout {again test stop : Nat} (h₀ : WithLabels st st₀ [again, test, stop])
    (hbody : BodyLays M returnType (st₀.mark again) body st₁)
    (hcond : lowerAs M ((st₁.restore st.visible).mark test) cond .boolean = .ok st₂) :
    StmtLays st ((st₂.emit (.branchIfTrue again)).mark stop) fun m strings =>
      StmtCode M m strings returnType st.point (.doWhile span body cond)
        ((st₂.emit (.branchIfTrue again)).mark stop).point := by
  obtain ⟨hfirst, hrest⟩ := List.nodup_cons.mp h₀.nodup
  obtain ⟨hsecond, -⟩ := List.nodup_cons.mp hrest
  have hvalue := lowerAs_layout hcond
  have hbranch := hvalue.trans (lays_emit st₂ (.branchIfTrue again))
  have h₁ := ((h₀.pending.mark hfirst).grows hbody.grows).restore st.visible
  have h₂ := (h₁.mark hsecond).grows hbranch.grows
  refine ⟨(h₂.mark List.not_mem_nil).close, fun {m strings} hf => ?_⟩
  have hf₃ := hf.keeps (h₂.keeps_mark (.head _))
  obtain ⟨hcode, hback⟩ := hbranch.layout hf₃
  have hf₂ := hf₃.keeps hbranch.grows.keeps
  have hf₁ := (hf₂.keeps (h₁.keeps_mark (.head _))).restore
  have hinside := hbody.layout hf₁
  have hpoint : (st₀.mark again).point = { st.point with pos := st.point.pos + 1 } := by
    rw [point_mark, h₀.point]
  rw [size_mark] at hcode
  rw [hpoint] at hinside
  have hhead := (hf₁.keeps hbody.grows.keeps).mark (h₀.pending.lt_size (.head _))
  have htest := hf₂.mark (h₁.lt_size (.head _))
  have hend := hf.mark (h₂.lt_size (.head _))
  rw [h₀.size] at hhead
  rw [size_emit] at hend
  refine ⟨again, test, stop, st₁.point, st₂.draft.code.size, hhead, hinside, htest.1, hcode, hback,
    hend.1, ?_⟩
  rw [point_mark, point_emit, hvalue.point, point_mark, point_restore]
  rfl

end

mutual

/-- The code of a statement is laid out. -/
theorem lowerStmt_layout {M : Methods} {returnType : Ty} :
    ∀ {s : Stmt} {st st' : State}, lowerStmt M returnType st s = .ok st' →
      StmtLays st st' fun m strings => StmtCode M m strings returnType st.point s st'.point
  | .expr _ e, st, st', h => by
    obtain ⟨⟨leaves, st₁⟩, he, h⟩ := bind_eq_ok.mp h
    obtain rfl := Except.ok.inj h
    have hall := (lowerValue_layout he).trans (lays_discarded leaves st₁)
    refine ⟨hall.grows, fun hf => ?_⟩
    obtain ⟨hec, hd⟩ := hall.layout hf
    exact ⟨leaves, _, _, hec, hd, hall.point⟩
  | .decl _ x ty none, st, st', h => by
    obtain ⟨⟨slot, st₁⟩, hd, h⟩ := bind_eq_ok.mp h
    obtain rfl := Except.ok.inj h
    obtain ⟨rfl, hpoint, hlays⟩ := declare_layout hd
    exact ⟨hlays.grows, fun hf => ⟨hlays.layout hf, hpoint⟩⟩
  | .decl _ x ty (some init), st, st', h => by
    obtain ⟨st₁, he, h⟩ := bind_eq_ok.mp h
    obtain ⟨⟨slot, st₂⟩, hd, h⟩ := bind_eq_ok.mp h
    obtain rfl := Except.ok.inj h
    have hec := lowerAs_layout he
    obtain ⟨rfl, hpoint, hlays⟩ := declare_layout hd
    have hstore := lays_emit st₂ (.storeLocal st₁.draft.locals.size)
    refine ⟨(hec.grows.trans hlays.grows).trans hstore.grows, fun {m strings} hf => ?_⟩
    have hf₂ := hf.keeps hstore.grows.keeps
    have hpos : st₂.draft.code.size = st₁.draft.code.size := congrArg Point.pos hpoint
    have hs := hstore.layout hf
    rw [hpos, hec.locals] at hs
    have hl := hlays.layout hf₂
    rw [hec.locals] at hl
    refine ⟨_, hec.layout (hf₂.keeps hlays.grows.keeps), hl, hs, ?_⟩
    rw [hstore.point, hpoint, size_emit, hpos, hec.visible, hec.locals]
    rfl
  | .assign _ x _ value, st, st', h => by
    obtain ⟨y, hy, h⟩ := bind_eq_ok.mp h
    obtain ⟨st₁, hv, h⟩ := bind_eq_ok.mp h
    obtain rfl := Except.ok.inj h
    have hall := (lowerAs_layout hv).trans (lays_emit st₁ y.slot.store)
    refine ⟨hall.grows, fun hf => ?_⟩
    obtain ⟨hvc, hs⟩ := hall.layout hf
    exact ⟨y, _, resolve_eq_ok hy, hvc, hs, hall.point.trans (by rw [size_emit])⟩
  | .assignElement _ x is _ value, st, st', h => element_layout h
  | .ifThen _ cond body, st, st', h => by
    obtain ⟨st₁, hc, h⟩ := bind_eq_ok.mp h
    obtain ⟨st₂, hb, h⟩ := bind_eq_ok.mp h
    obtain rfl := Except.ok.inj h
    exact ifThen_layout (WithLabels.refl st).newLabel.newLabel hc (lowerStmts_layout hb)
  | .ifElse _ cond body other, st, st', h => by
    obtain ⟨st₁, hc, h⟩ := bind_eq_ok.mp h
    obtain ⟨st₂, ho, h⟩ := bind_eq_ok.mp h
    obtain ⟨st₃, hb, h⟩ := bind_eq_ok.mp h
    obtain rfl := Except.ok.inj h
    exact ifElse_layout (WithLabels.refl st).newLabel.newLabel hc (lowerStmts_layout ho)
      (lowerStmts_layout hb)
  | .while _ cond body, st, st', h => by
    obtain ⟨st₁, hc, h⟩ := bind_eq_ok.mp h
    obtain ⟨st₂, hb, h⟩ := bind_eq_ok.mp h
    obtain rfl := Except.ok.inj h
    exact while_layout (WithLabels.refl st).newLabel.newLabel.newLabel hc (lowerStmts_layout hb)
  | .doWhile _ body cond, st, st', h => by
    obtain ⟨st₁, hb, h⟩ := bind_eq_ok.mp h
    obtain ⟨st₂, hc, h⟩ := bind_eq_ok.mp h
    obtain rfl := Except.ok.inj h
    exact doWhile_layout (WithLabels.refl st).newLabel.newLabel.newLabel (lowerStmts_layout hb) hc
  | .ret _ none, st, st', h => by
    obtain rfl := Except.ok.inj h
    have hret := lays_emit st .ret
    exact ⟨hret.grows, fun hf => ⟨hret.layout hf, hret.point.trans (by rw [size_emit]; rfl)⟩⟩
  | .ret _ (some value), st, st', h => by
    unfold lowerStmt at h
    unfold StmtCode
    split
    · next hval =>
      rw [if_pos hval] at h
      obtain ⟨st₁, hv, h⟩ := bind_eq_ok.mp h
      obtain rfl := Except.ok.inj h
      have hall := (lowerAs_layout hv).trans (lays_emit st₁ .ret)
      refine ⟨hall.grows, fun hf => ?_⟩
      obtain ⟨hvc, hs⟩ := hall.layout hf
      exact ⟨_, hvc, hs, hall.point.trans (by rw [size_emit])⟩
    · next hval =>
      rw [if_neg hval] at h
      obtain ⟨⟨leaves, st₁⟩, hv, h⟩ := bind_eq_ok.mp h
      obtain rfl := Except.ok.inj h
      have hall := ((lowerValue_layout hv).trans (lays_discarded leaves st₁)).trans
        (lays_emit _ .ret)
      refine ⟨hall.grows, fun hf => ?_⟩
      obtain ⟨⟨hvc, hd⟩, hs⟩ := hall.layout hf
      exact ⟨leaves, _, _, hvc, hd, hs, hall.point.trans (by rw [size_emit])⟩
  | .block _ body, st, st', h => by
    obtain ⟨st₁, hb, h⟩ := bind_eq_ok.mp h
    obtain rfl := Except.ok.inj h
    have hbc := lowerStmts_layout hb
    refine ⟨(((Pending.refl st).grows hbc.grows).restore _).close, fun hf => ?_⟩
    exact ⟨_, hbc.layout hf.restore, rfl⟩

theorem lowerStmts_layout {M : Methods} {returnType : Ty} :
    ∀ {ss : List Stmt} {st st' : State}, lowerStmts M returnType st ss = .ok st' →
      StmtLays st st' fun m strings => StmtsCode M m strings returnType st.point ss st'.point
  | [], st, st', h => by
    obtain rfl := Except.ok.inj h
    exact ⟨Grows.refl st, fun _ => rfl⟩
  | s :: ss, st, st', h => by
    obtain ⟨st₁, hs, h⟩ := bind_eq_ok.mp h
    have hsc := lowerStmt_layout hs
    have hrest := lowerStmts_layout h
    exact ⟨hsc.grows.trans hrest.grows, fun hf =>
      ⟨_, hsc.layout (hf.keeps hrest.grows.keeps), hrest.layout hf⟩⟩

end

end Quill.Lowering
