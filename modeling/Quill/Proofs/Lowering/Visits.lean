import Mathlib.Data.List.Induction
import Quill.Proofs.Lowering.Success
import Quill.Proofs.Tree.Places

/-! # Where lowering comes to

The blocks of a function with the state in which lowering comes to them (`loweredBlock`), the state
in which it looks up the names of a statement (`loweredAt`), and the slots that it gives to the
declarations (`slotOf?`).  The second branch of an `ifElse` is lowered before the first.

A body sees the variables that are visible around it, and lowering that succeeds has come to every
block.  Each declaration takes the next slot, so distinct declarations of a function have distinct
slots (`slotOf?_injective`). -/

namespace Quill.Lowering

open Code

/-! ### Where lowering stands -/

/-- The state in which lowering comes to a body of a statement. -/
def enter (methods : Methods) (returnType : Ty) (st : State) : Stmt → Nat → Except Fault State
  | .ifThen _ cond _, _ => do
    let (yes, st) := st.newLabel
    let (stop, st) := st.newLabel
    let st ← lowerAs methods st cond .boolean
    return ((st.emit (.branchIfTrue yes)).emit (.jump stop)).mark yes
  | .ifElse _ cond _ other, 0 => do
    let visible := st.visible
    let (yes, st) := st.newLabel
    let (stop, st) := st.newLabel
    let st ← lowerAs methods st cond .boolean
    let st ← lowerStmts methods returnType (st.emit (.branchIfTrue yes)) other
    return ((st.restore visible).emit (.jump stop)).mark yes
  | .ifElse _ cond _ _, _ + 1 => do
    let (yes, st) := st.newLabel
    let (_, st) := st.newLabel
    let st ← lowerAs methods st cond .boolean
    return st.emit (.branchIfTrue yes)
  | .while _ cond _, _ => do
    let (test, st) := st.newLabel
    let (yes, st) := st.newLabel
    let (stop, st) := st.newLabel
    let st ← lowerAs methods (st.mark test) cond .boolean
    return ((st.emit (.branchIfTrue yes)).emit (.jump stop)).mark yes
  | .doWhile _ _ _, _ =>
    let (again, st) := st.newLabel
    let (_, st) := st.newLabel
    let (_, st) := st.newLabel
    .ok (st.mark again)
  | _, _ => .ok st

/-- The state in which lowering looks up the names of a statement: the condition of a `doWhile`
comes after its body.  Lowering expressions does not change what is visible. -/
def lookupState (methods : Methods) (returnType : Ty) (st : State) : Stmt → Except Fault State
  | .doWhile _ body _ => do
    let visible := st.visible
    let (again, st) := st.newLabel
    let (test, st) := st.newLabel
    let (_, st) := st.newLabel
    let st ← lowerStmts methods returnType (st.mark again) body
    return (st.restore visible).mark test
  | _ => .ok st

/-- The slot that lowering gives to the variable which a statement declares. -/
def slotIn? (methods : Methods) (st : State) : Stmt → Option Slot
  | .decl _ x ty none => (st.declare x ty).toOption.map fun r => .local r.1
  | .decl _ x ty (some e) => do
    let st ← (lowerAs methods st e ty).toOption
    let (slot, _) ← (st.declare x ty).toOption
    return .local slot
  | _ => none

/-- The block at the end of a way, with the state in which lowering comes to it, as far as it
succeeds. -/
def loweredBlock (methods : Methods) (returnType : Ty) (start : State) (body : List Stmt) :
    Way → Option (List Stmt × State)
  | [] => some (body, start)
  | (k, j) :: way => do
    let (ss, st) ← loweredBlock methods returnType start body way
    let s ← ss[k]?
    let inner ← s.bodies[j]?
    let st ← (lowerStmts methods returnType st (ss.take k)).toOption
    let st ← (enter methods returnType st s j).toOption
    return (inner, st)

/-- The state in which lowering looks up the names of a statement. -/
def loweredAt (methods : Methods) (returnType : Ty) (start : State) (body : List Stmt) (way : Way)
    (k : Nat) : Option State := do
  let (ss, st) ← loweredBlock methods returnType start body way
  let s ← ss[k]?
  let st ← (lowerStmts methods returnType st (ss.take k)).toOption
  (lookupState methods returnType st s).toOption

/-- The slot that lowering gives to the variable which a statement declares. -/
def slotAt? (methods : Methods) (returnType : Ty) (start : State) (body : List Stmt) (way : Way)
    (k : Nat) : Option Slot := do
  let (ss, st) ← loweredBlock methods returnType start body way
  let s ← ss[k]?
  let st ← (lowerStmts methods returnType st (ss.take k)).toOption
  slotIn? methods st s

theorem toOption_eq_some {ε α : Type} {x : Except ε α} {a : α} :
    x.toOption = some a ↔ x = .ok a := by
  cases x with
  | error e =>
    constructor
    · intro h
      cases h
    · intro h
      cases h
  | ok b =>
    constructor
    · intro h
      rw [Option.some.inj h]
    · intro h
      rw [Except.ok.inj h]
      rfl

section

variable {M : Methods} {returnType : Ty} {start q : State} {body inner : List Stmt} {way : Way}
  {k j : Nat} {slot : Slot}

theorem loweredBlock_cons :
    loweredBlock M returnType start body ((k, j) :: way) = some (inner, q) ↔
      ∃ ss st s u, loweredBlock M returnType start body way = some (ss, st) ∧ ss[k]? = some s ∧
        s.bodies[j]? = some inner ∧ lowerStmts M returnType st (ss.take k) = .ok u ∧
        enter M returnType u s j = .ok q := by
  simp only [loweredBlock, Option.bind_eq_bind, Option.bind_eq_some_iff, Prod.exists,
    Option.pure_def, Option.some.injEq, Prod.mk.injEq, toOption_eq_some]
  grind

theorem loweredAt_eq_some : loweredAt M returnType start body way k = some q ↔
    ∃ ss st s u, loweredBlock M returnType start body way = some (ss, st) ∧ ss[k]? = some s ∧
      lowerStmts M returnType st (ss.take k) = .ok u ∧ lookupState M returnType u s = .ok q := by
  simp only [loweredAt, Option.bind_eq_bind, Option.bind_eq_some_iff, Prod.exists, toOption_eq_some]
  grind

theorem slotAt?_eq_some : slotAt? M returnType start body way k = some slot ↔
    ∃ ss st s u, loweredBlock M returnType start body way = some (ss, st) ∧ ss[k]? = some s ∧
      lowerStmts M returnType st (ss.take k) = .ok u ∧ slotIn? M u s = some slot := by
  simp only [slotAt?, Option.bind_eq_bind, Option.bind_eq_some_iff, Prod.exists, toOption_eq_some]
  grind

end

section

variable {M : Methods} {returnType : Ty} {st : State}

/-! ### Statements -/

/-- A statement adds the variable that it declares itself, in the next slot, and leaves the others
visible. -/
theorem visible_lowerStmt {st' : State} {s : Stmt} (h : lowerStmt M returnType st s = .ok st') :
    st'.visible = declaredBy st.draft.locals.size s ++ st.visible ∧
      st'.draft.locals.size = st.draft.locals.size + s.declarations := by
  obtain ⟨m, strings, hf⟩ := exists_final st'
  have hcode := (lowerStmt_layout h).layout hf
  exact ⟨hcode.visible, hcode.slots_eq⟩

theorem size_lowerStmts {st' : State} {ss : List Stmt}
    (h : lowerStmts M returnType st ss = .ok st') :
    st'.draft.locals.size = st.draft.locals.size + stmtsDeclarations ss := by
  obtain ⟨m, strings, hf⟩ := exists_final st'
  exact ((lowerStmts_layout h).layout hf).slots_eq

/-- A body is entered with what is visible around it; the slots of the branch that comes first are
taken. -/
theorem stands_enter {q : State} {s : Stmt} {j : Nat} {body : List Stmt} (hb : IsBody body s j)
    (h : enter M returnType st s j = .ok q) :
    q.visible = st.visible ∧ q.draft.locals.size = st.draft.locals.size + s.before false j := by
  have hst : Stands st st.draft.name st.visible st.draft.locals.size := ⟨rfl, rfl, rfl⟩
  suffices hq : Stands q st.draft.name st.visible (st.draft.locals.size + s.before false j) from
    ⟨hq.visible, hq.slots⟩
  cases hb with
  | ifThen =>
    obtain ⟨st₁, hcond, h⟩ := bind_eq_ok.mp h
    obtain rfl := Except.ok.inj h
    exact ((((hst.newLabel.newLabel).lowerAs hcond).emit _).emit _).mark _
  | @second _ cond first =>
    obtain ⟨st₁, hcond, h⟩ := bind_eq_ok.mp h
    obtain rfl := Except.ok.inj h
    exact ((hst.newLabel.newLabel).lowerAs hcond).emit _
  | @first _ cond other =>
    obtain ⟨st₁, hcond, h⟩ := bind_eq_ok.mp h
    obtain ⟨st₂, hother, h⟩ := bind_eq_ok.mp h
    obtain rfl := Except.ok.inj h
    exact ((((hst.newLabel.newLabel).lowerAs hcond).emit _).lowerStmts hother).emit _ |>.mark _
  | «while» =>
    obtain ⟨st₁, hcond, h⟩ := bind_eq_ok.mp h
    obtain rfl := Except.ok.inj h
    exact (((((hst.newLabel.newLabel.newLabel).mark _).lowerAs hcond).emit _).emit _).mark _
  | doWhile =>
    obtain rfl := Except.ok.inj h
    exact (hst.newLabel.newLabel.newLabel).mark _
  | block =>
    obtain rfl := Except.ok.inj h
    exact hst

theorem exists_enter {st' : State} {s : Stmt} {j : Nat} {body : List Stmt} (hb : IsBody body s j)
    (h : lowerStmt M returnType st s = .ok st') :
    ∃ q r, enter M returnType st s j = .ok q ∧ lowerStmts M returnType q body = .ok r := by
  cases hb with
  | ifThen | «while» =>
    obtain ⟨st₁, hcond, h⟩ := bind_eq_ok.mp h
    obtain ⟨st₂, hbody, h⟩ := bind_eq_ok.mp h
    exact ⟨_, st₂, bind_eq_ok.mpr ⟨st₁, hcond, rfl⟩, hbody⟩
  | @first _ cond other =>
    obtain ⟨st₁, hcond, h⟩ := bind_eq_ok.mp h
    obtain ⟨st₂, hother, h⟩ := bind_eq_ok.mp h
    obtain ⟨st₃, hbody, h⟩ := bind_eq_ok.mp h
    exact ⟨_, st₃, bind_eq_ok.mpr ⟨st₁, hcond, bind_eq_ok.mpr ⟨st₂, hother, rfl⟩⟩, hbody⟩
  | @second _ cond first =>
    obtain ⟨st₁, hcond, h⟩ := bind_eq_ok.mp h
    obtain ⟨st₂, hother, h⟩ := bind_eq_ok.mp h
    exact ⟨_, st₂, bind_eq_ok.mpr ⟨st₁, hcond, rfl⟩, hother⟩
  | doWhile | block =>
    obtain ⟨st₁, hbody, h⟩ := bind_eq_ok.mp h
    exact ⟨_, st₁, rfl, hbody⟩

/-- Where names are looked up, the same is visible as before the statement. -/
theorem visible_lookupState {q : State} {s : Stmt} (h : lookupState M returnType st s = .ok q) :
    q.visible = st.visible := by
  cases s with
  | doWhile _ body cond =>
    obtain ⟨st₁, hbody, h⟩ := bind_eq_ok.mp h
    obtain rfl := Except.ok.inj h
    rfl
  | expr | decl | assign | assignElement | ifThen | ifElse | «while» | ret | block =>
    obtain rfl := Except.ok.inj h
    rfl

theorem exists_lookupState {st' : State} {s : Stmt} (h : lowerStmt M returnType st s = .ok st') :
    ∃ q, lookupState M returnType st s = .ok q := by
  cases s with
  | doWhile _ body cond =>
    obtain ⟨st₁, hbody, h⟩ := bind_eq_ok.mp h
    exact ⟨_, bind_eq_ok.mpr ⟨st₁, hbody, rfl⟩⟩
  | expr | decl | assign | assignElement | ifThen | ifElse | «while» | ret | block =>
    exact ⟨st, rfl⟩

/-- Lowering takes an expression where some variables are visible. -/
def Lowers (M : Methods) (visible : Visible) (e : Expr) : Prop :=
  ∃ u r, u.visible = visible ∧ lowerValue M u e = .ok r

theorem lowerAs_lowers {st' : State} {e : Expr} {target : Ty}
    (h : lowerAs M st e target = .ok st') : Lowers M st.visible e := by
  obtain ⟨r, hr, _⟩ := bind_eq_ok.mp h
  exact ⟨st, r, rfl, hr⟩

theorem lowerAll_lowers {es : List Expr} :
    ∀ {ts : List Ty} {st st' : State}, es.length ≤ ts.length → lowerAll M st ts es = .ok st' →
      ∀ e ∈ es, Lowers M st.visible e := by
  induction es with
  | nil => exact fun _ _ e he => absurd he List.not_mem_nil
  | cons e es ih =>
    intro ts st st' hlen h e' he'
    cases ts with
    | nil => cases hlen
    | cons t ts =>
      unfold lowerAll at h
      obtain ⟨st₁, st₂, he, ho, h⟩ := bind_operand_eq_ok h
      rcases List.mem_cons.mp he' with rfl | he'
      · exact ⟨st, _, rfl, he⟩
      · have hvisible := ((lowerValue_layout he).operand ho).visible
        rw [← hvisible]
        exact ih (Nat.le_of_succ_le_succ hlen) h e' he'

theorem lowerElement_lowers {st' : State} {a : String} {is : List Expr} {value : Expr}
    (h : lowerElement M st a is value = .ok st') : ∀ e ∈ is ++ [value], Lowers M st.visible e := by
  unfold lowerElement at h
  obtain ⟨y, _, h⟩ := bind_eq_ok.mp h
  cases hty : y.ty with
  | array element rank =>
    rw [hty] at h
    dsimp only at h
    by_cases hrank : rank ≠ is.length
    · rw [if_pos hrank] at h
      cases h
    · rw [if_neg hrank] at h
      obtain ⟨st₁, his, h⟩ := bind_eq_ok.mp h
      obtain ⟨st₂, hv, _⟩ := bind_eq_ok.mp h
      intro e he
      rcases List.mem_append.mp he with he | he
      · exact lowerAll_lowers (Nat.le_of_eq (List.length_replicate ..).symm) his e he
      · obtain rfl := List.mem_singleton.mp he
        have hvisible : st₁.visible = st.visible := (lowerAll_layout his).visible
        rw [← hvisible]
        exact lowerAs_lowers hv
  | _ =>
    rw [hty] at h
    cases h

/-- The expressions of a statement are lowered where its names are looked up. -/
theorem lowerStmt_lowers {st' : State} {s : Stmt} (h : lowerStmt M returnType st s = .ok st') :
    ∀ e ∈ s.exprs, Lowers M st.visible e := by
  intro e he
  cases s with
  | expr _ e' =>
    obtain rfl := List.mem_singleton.mp he
    obtain ⟨r, hr, _⟩ := bind_eq_ok.mp h
    exact ⟨st, r, rfl, hr⟩
  | decl _ x ty init =>
    obtain rfl : init = some e := Option.mem_toList.mp he
    obtain ⟨st₁, hst₁, _⟩ := bind_eq_ok.mp h
    exact lowerAs_lowers hst₁
  | assign _ x _ value =>
    obtain rfl := List.mem_singleton.mp he
    obtain ⟨y, _, h⟩ := bind_eq_ok.mp h
    obtain ⟨st₁, hst₁, _⟩ := bind_eq_ok.mp h
    exact lowerAs_lowers hst₁
  | assignElement _ a is _ value => exact lowerElement_lowers h e he
  | ifThen _ cond _ | ifElse _ cond _ _ | «while» _ cond _ =>
    obtain rfl := List.mem_singleton.mp he
    obtain ⟨st₁, hst₁, _⟩ := bind_eq_ok.mp h
    have hcond := lowerAs_lowers hst₁
    exact hcond
  | doWhile _ body cond =>
    obtain rfl := List.mem_singleton.mp he
    obtain ⟨st₁, _, h⟩ := bind_eq_ok.mp h
    obtain ⟨st₂, hst₂, _⟩ := bind_eq_ok.mp h
    have hcond := lowerAs_lowers hst₂
    exact hcond
  | ret _ value =>
    obtain rfl : value = some e := Option.mem_toList.mp he
    unfold lowerStmt at h
    split at h
    · obtain ⟨st₁, hst₁, _⟩ := bind_eq_ok.mp h
      exact lowerAs_lowers hst₁
    · obtain ⟨r, hr, _⟩ := bind_eq_ok.mp h
      exact ⟨st, r, rfl, hr⟩
  | block => cases he

theorem slotIn?_eq_some {slot : Slot} {s : Stmt} (h : slotIn? M st s = some slot) :
    slot = .local st.draft.locals.size ∧ ∃ v, s.declared? = some v := by
  cases s with
  | decl _ x ty init =>
    refine ⟨?_, (x, ty), rfl⟩
    cases init with
    | none =>
      obtain ⟨r, hr, rfl⟩ := Option.map_eq_some_iff.mp h
      rw [(declare_layout (toOption_eq_some.mp hr)).1]
    | some e =>
      obtain ⟨st₁, hst₁, h⟩ := Option.bind_eq_some_iff.mp h
      obtain ⟨⟨k, st₂⟩, hst₂, h⟩ := Option.bind_eq_some_iff.mp h
      obtain rfl := Option.some.inj h
      rw [(declare_layout (toOption_eq_some.mp hst₂)).1,
        (lowerAs_layout (toOption_eq_some.mp hst₁)).locals]
  | _ => cases h

theorem exists_slotIn? {st' : State} {s : Stmt} {v : String × Ty} (hs : s.declared? = some v)
    (h : lowerStmt M returnType st s = .ok st') : ∃ slot, slotIn? M st s = some slot := by
  cases s with
  | decl _ x ty init =>
    cases init with
    | none =>
      obtain ⟨r, hr, _⟩ := bind_eq_ok.mp h
      refine ⟨.local r.1, ?_⟩
      rw [slotIn?, hr]
      rfl
    | some e =>
      obtain ⟨st₁, hst₁, h⟩ := bind_eq_ok.mp h
      obtain ⟨r, hr, _⟩ := bind_eq_ok.mp h
      refine ⟨.local r.1, ?_⟩
      rw [slotIn?, hst₁]
      show (st₁.declare x ty).toOption.bind _ = _
      rw [hr]
      rfl
  | _ => cases hs

theorem declaredBy_eq (slot : Nat) (s : Stmt) :
    declaredBy slot s = (s.declared?.map fun v => (v.1, ⟨.local slot, v.2⟩)).toList := by
  cases s with
  | expr | decl | assign | assignElement | ifThen | ifElse | «while» | doWhile | ret | block => rfl

/-! ### Lists of statements -/

theorem lowerStmts_append {xs ys : List Stmt} {r : State} :
    ∀ {st : State}, lowerStmts M returnType st (xs ++ ys) = .ok r ↔
      ∃ q, lowerStmts M returnType st xs = .ok q ∧ lowerStmts M returnType q ys = .ok r := by
  induction xs with
  | nil =>
    intro st
    constructor
    · intro h
      exact ⟨st, rfl, h⟩
    · rintro ⟨q, hq, h⟩
      rwa [Except.ok.inj hq]
  | cons s xs ih =>
    intro st
    rw [List.cons_append, lowerStmts, lowerStmts]
    constructor
    · intro h
      obtain ⟨st₁, hs, h⟩ := bind_eq_ok.mp h
      obtain ⟨q, hq, h⟩ := ih.mp h
      exact ⟨q, bind_eq_ok.mpr ⟨st₁, hs, hq⟩, h⟩
    · rintro ⟨q, hq, h⟩
      obtain ⟨st₁, hs, hq⟩ := bind_eq_ok.mp hq
      exact bind_eq_ok.mpr ⟨st₁, hs, ih.mpr ⟨q, hq, h⟩⟩

theorem lowerStmts_take_succ {ss : List Stmt} {k : Nat} {s : Stmt} {r : State}
    (hk : ss[k]? = some s) (h : lowerStmts M returnType st (ss.take (k + 1)) = .ok r) :
    ∃ q, lowerStmts M returnType st (ss.take k) = .ok q ∧ lowerStmt M returnType q s = .ok r := by
  rw [List.take_add_one, hk, Option.toList_some] at h
  obtain ⟨q, hq, h⟩ := lowerStmts_append.mp h
  obtain ⟨r', hr', h⟩ := bind_eq_ok.mp h
  obtain rfl := Except.ok.inj h
  exact ⟨q, hq, hr'⟩

theorem lowerStmts_at {ss : List Stmt} {k : Nat} {s : Stmt} {r : State} (hk : ss[k]? = some s)
    (h : lowerStmts M returnType st ss = .ok r) :
    ∃ q q', lowerStmts M returnType st (ss.take k) = .ok q ∧
      lowerStmt M returnType q s = .ok q' := by
  rw [← List.take_append_drop (k + 1) ss] at h
  obtain ⟨q', hq', _⟩ := lowerStmts_append.mp h
  obtain ⟨q, hq, hs⟩ := lowerStmts_take_succ hk hq'
  exact ⟨q, q', hq, hs⟩

end

/-! ### Blocks -/

section

variable {M : Methods} {returnType : Ty} {start : State} {body : List Stmt}

/-- Where lowering comes to a block, a slot is taken for each declaration before it. -/
theorem loweredBlock_opens {way : Way} :
    ∀ {ss : List Stmt} {st : State}, loweredBlock M returnType start body way = some (ss, st) →
      ∃ n, Opens false body way ss n ∧ st.draft.locals.size = start.draft.locals.size + n := by
  induction way with
  | nil =>
    intro ss st h
    obtain ⟨rfl, rfl⟩ := Prod.mk.inj (Option.some.inj h)
    exact ⟨0, .outermost, rfl⟩
  | cons step way ih =>
    obtain ⟨k, j⟩ := step
    intro inner st' h
    obtain ⟨ss, st, s, u, houter, hk, hj, hu, hq⟩ := loweredBlock_cons.mp h
    obtain ⟨n, hopens, hsize⟩ := ih houter
    refine ⟨_, .inner hopens hk hj, ?_⟩
    have hbefore := size_lowerStmts hu
    have henter := (stands_enter (isBody_of_bodies hj) hq).2
    omega

theorem exists_loweredBlock {r : State} (h : lowerStmts M returnType start body = .ok r)
    {way : Way} :
    ∀ {ss : List Stmt}, blockAt? body way = some ss →
      ∃ st r, loweredBlock M returnType start body way = some (ss, st) ∧
        lowerStmts M returnType st ss = .ok r := by
  induction way with
  | nil =>
    intro ss hss
    obtain rfl := Option.some.inj hss
    exact ⟨start, r, rfl, h⟩
  | cons step way ih =>
    obtain ⟨k, j⟩ := step
    intro inner hinner
    obtain ⟨s, hs, hj⟩ := Option.bind_eq_some_iff.mp hinner
    obtain ⟨ss, hss, hk⟩ := Option.bind_eq_some_iff.mp hs
    obtain ⟨st, r, hblock, hr⟩ := ih hss
    obtain ⟨q, q', hq, hs⟩ := lowerStmts_at hk hr
    obtain ⟨e, r', he, hr'⟩ := exists_enter (isBody_of_bodies hj) hs
    exact ⟨e, r', loweredBlock_cons.mpr ⟨ss, st, s, q, hblock, hk, hj, hq, he⟩, hr'⟩

/-- The slot of a declaration tells how many declarations come before it. -/
theorem getElem?_places_of_slotAt? {way : Way} {k : Nat} {slot : Slot}
    (h : slotAt? M returnType start body way k = some slot) :
    ∃ n, slot = .local (start.draft.locals.size + n) ∧
      (stmtsPlaces false [] 0 body)[n]? = some (way, k) := by
  obtain ⟨ss, st, s, u, hblock, hk, hu, hslot⟩ := slotAt?_eq_some.mp h
  obtain ⟨n, hopens, hsize⟩ := loweredBlock_opens hblock
  obtain ⟨rfl, v, hs⟩ := slotIn?_eq_some hslot
  refine ⟨n + stmtsDeclarations (ss.take k), ?_, hopens.getElem?_places hk hs⟩
  rw [size_lowerStmts hu, hsize, Nat.add_assoc]

/-- The slot of a declaration is the next one where lowering comes to it. -/
theorem slotAt?_eq {way : Way} {ss : List Stmt} {k : Nat} {s : Stmt} {v : String × Ty}
    {st q q' : State} (hblock : loweredBlock M returnType start body way = some (ss, st))
    (hk : ss[k]? = some s) (hv : s.declared? = some v)
    (hq : lowerStmts M returnType st (ss.take k) = .ok q)
    (hs : lowerStmt M returnType q s = .ok q') :
    slotAt? M returnType start body way k = some (.local q.draft.locals.size) := by
  obtain ⟨slot, hslot⟩ := exists_slotIn? hv hs
  obtain ⟨rfl, _⟩ := slotIn?_eq_some hslot
  exact slotAt?_eq_some.mpr ⟨ss, st, s, q, hblock, hk, hq, hslot⟩

/-- Lowering that succeeds looks names up at every statement, lowers its expressions there, and
gives a slot to every declaration. -/
theorem lowerStmts_reaches {r : State} (h : lowerStmts M returnType start body = .ok r) {way : Way}
    {k : Nat} {s : Stmt} (hs : stmtAt? body way k = some s) :
    (∃ q, loweredAt M returnType start body way k = some q ∧ ∀ e ∈ s.exprs, Lowers M q.visible e) ∧
      (∀ v, s.declared? = some v → ∃ slot, slotAt? M returnType start body way k = some slot) := by
  obtain ⟨ss, hss, hk⟩ := Option.bind_eq_some_iff.mp hs
  obtain ⟨st, r, hblock, hr⟩ := exists_loweredBlock h hss
  obtain ⟨q, q', hq, hs⟩ := lowerStmts_at hk hr
  refine ⟨?_, fun v hv => ⟨_, slotAt?_eq hblock hk hv hq hs⟩⟩
  obtain ⟨u, hu⟩ := exists_lookupState hs
  refine ⟨u, loweredAt_eq_some.mpr ⟨ss, st, _, q, hblock, hk, hq, hu⟩, ?_⟩
  rw [visible_lookupState hu]
  exact lowerStmt_lowers hs

end

/-! ### Functions -/

/-- The state in which lowering comes to the statements of a function. -/
def bodyState (pool : Array String) (f : FunctionDecl) : State :=
  { draft := Draft.new f.name (f.params.map (·.ty)) f.returnType, pool,
    visible := bindParams [] 0 f.params }

/-- Lowering a function that succeeds has lowered its statements. -/
theorem lowerFunction_lowerStmts {methods : Methods} {pool : Array String} {f : FunctionDecl}
    {r : Method × Array String} (h : lowerFunction methods pool f = .ok r) :
    ∃ q, lowerStmts methods f.returnType (bodyState pool f) f.body = .ok q := by
  unfold lowerFunction at h
  split at h
  · cases h
  · obtain ⟨q, hq, _⟩ := bind_eq_ok.mp h
    exact ⟨q, hq⟩

/-- The slot that lowering gives to a declaration of a function. -/
def slotOf? (methods : Methods) (pool : Array String) (f : FunctionDecl) :
    Declaration → Option Slot
  | .param k => (bindParams [] 0 f.params).reverse[k]?.map (·.2.slot)
  | .stmt way k => slotAt? methods f.returnType (bodyState pool f) f.body way k

theorem bindParams_append_singleton (x : Param) (xs : List Param) :
    ∀ (visible : Visible) (slot : Nat), bindParams visible slot (xs ++ [x]) =
      (x.name, ⟨.arg (slot + xs.length), x.ty⟩) :: bindParams visible slot xs := by
  induction xs with
  | nil => exact fun _ _ => rfl
  | cons y xs ih =>
    intro visible slot
    rw [List.cons_append, bindParams, ih, bindParams, List.length_cons]
    have hslot : slot + 1 + xs.length = slot + (xs.length + 1) := by omega
    rw [hslot]

theorem bindParams_take_succ {params : List Param} {k : Nat} {x : Param}
    (hk : params[k]? = some x) :
    bindParams [] 0 (params.take (k + 1)) =
      (x.name, ⟨.arg k, x.ty⟩) :: bindParams [] 0 (params.take k) := by
  have hlt : k < params.length := (List.getElem?_eq_some_iff.mp hk).1
  rw [List.take_add_one, hk, Option.toList_some, bindParams_append_singleton, Nat.zero_add,
    List.length_take, Nat.min_eq_left (Nat.le_of_lt hlt)]

theorem reverse_bindParams (params : List Param) : (bindParams [] 0 params).reverse =
    params.mapIdx fun k x => (x.name, ⟨.arg k, x.ty⟩) := by
  induction params using List.reverseRecOn with
  | nil => rfl
  | append_singleton params x ih =>
    rw [bindParams_append_singleton, List.reverse_cons, ih, List.mapIdx_concat, Nat.zero_add]

/-- The parameters live in the slots of the arguments, in their order. -/
theorem slotOf?_param (methods : Methods) (pool : Array String) {f : FunctionDecl} {k : Nat}
    {slot : Slot} : slotOf? methods pool f (.param k) = some slot ↔
      k < f.params.length ∧ slot = .arg k := by
  rw [slotOf?, reverse_bindParams, List.getElem?_mapIdx, Option.map_map]
  constructor
  · intro h
    obtain ⟨x, hx, rfl⟩ := Option.map_eq_some_iff.mp h
    exact ⟨(List.getElem?_eq_some_iff.mp hx).1, rfl⟩
  · rintro ⟨hlt, rfl⟩
    rw [List.getElem?_eq_getElem hlt]
    rfl

/-- Distinct declarations of a function have distinct slots. -/
theorem slotOf?_injective {methods : Methods} {pool : Array String} {f : FunctionDecl}
    {D D' : Declaration} {slot : Slot} (h : slotOf? methods pool f D = some slot)
    (h' : slotOf? methods pool f D' = some slot) : D = D' := by
  cases D with
  | param k =>
    obtain ⟨_, rfl⟩ := (slotOf?_param methods pool).mp h
    cases D' with
    | param k' =>
      obtain ⟨_, hk⟩ := (slotOf?_param methods pool).mp h'
      rw [Slot.arg.inj hk]
    | stmt way k' =>
      obtain ⟨_, hlocal, _⟩ := getElem?_places_of_slotAt? h'
      cases hlocal
  | stmt way k =>
    obtain ⟨n, rfl, hplace⟩ := getElem?_places_of_slotAt? h
    cases D' with
    | param k' =>
      obtain ⟨_, harg⟩ := (slotOf?_param methods pool).mp h'
      cases harg
    | stmt way' k' =>
      obtain ⟨n', hn, hplace'⟩ := getElem?_places_of_slotAt? h'
      obtain rfl : n = n' := Nat.add_left_cancel (Slot.local.inj hn)
      obtain ⟨rfl, rfl⟩ := Prod.mk.inj (Option.some.inj (hplace.symm.trans hplace'))
      rfl

end Quill.Lowering
