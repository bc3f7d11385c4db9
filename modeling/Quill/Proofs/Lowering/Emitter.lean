import Quill.Lowering.Emitter
import Quill.Proofs.Lowering.Image

/-! # Lowering by tables

An emitter gives the image, or the fault, that `lowerProgram` gives, whatever it holds from programs
before.  What makes it so is that its tables agree with what they stand for.

* `Indexed pool strings`: the table of a pool tells the place of each of its texts.
* `Plans e M`: by the tables of the emitter, functions are called as they are among the methods `M`.
* `Meets R res r`: the same fault on both sides, or results and a state that are related.
* `Yields view res r`: a step in a body has come to the result `r` of the lowering without tables,
  and the table of the pool is still right, also after a fault.

`lowerValue_yields` and `lowerStmt_yields` carry this through bodies, `lowerBodies_meets` through
the patching of methods, and `fst_lower` to programs. -/

namespace Quill.Lowering.Emitter

open Code

variable {α β γ δ : Type}

/-- The table of a pool tells the place of each text. -/
def Indexed (pool : Array String) (strings : Index String) : Prop :=
  ∀ s, strings.lookup s = pool.findIdx? (· = s)

/-- By its tables, the emitter calls functions as they are called among the methods. -/
def Plans (e : Emitter) (M : Methods) : Prop :=
  ∀ name args, e.callPlan name args = Lowering.callPlan M name args

/-- A result of lowering by tables against one of lowering without: the same fault, or results that
are related together with the state that is left. -/
inductive Meets {σ : Type} (R : α → σ → β → Prop) :
    EStateM.Result Fault σ α → Except Fault β → Prop
  | ok {a : α} {s : σ} {b : β} : R a s b → Meets R (.ok a s) (.ok b)
  | error {fault : Fault} {s : σ} : Meets R (.error fault s) (.error fault)

theorem Meets.bind {σ : Type} {R : α → σ → β → Prop} {R' : γ → σ → δ → Prop}
    {m : EStateM Fault σ α} {k : α → EStateM Fault σ γ} {s : σ} {r : Except Fault β}
    {g : β → Except Fault δ} (hm : Meets R (m s) r)
    (hk : ∀ a s' b, R a s' b → Meets R' (k a s') (g b)) : Meets R' ((m >>= k) s) (r >>= g) := by
  show Meets R' (EStateM.bind m k s) _
  unfold EStateM.bind
  generalize m s = res at hm
  cases hm with
  | ok h => exact hk _ _ _ h
  | error => exact .error

/-- What is known of the lowering without tables can be used on the way. -/
theorem Meets.known {σ : Type} {R : α → σ → β → Prop} {res : EStateM.Result Fault σ α}
    {r : Except Fault β} (h : Meets R res r) : Meets (fun a s b => R a s b ∧ r = .ok b) res r := by
  cases h with
  | ok h => exact .ok ⟨h, rfl⟩
  | error => exact .error

/-! ### Steps -/

/-- A step in a body meets the lowering without tables, seen through `view`, and the table of the
pool stays right. -/
def Yields (view : α → State → β) : EStateM.Result Fault Work α → Except Fault β → Prop :=
  Meets fun a w b => b = view a w.state ∧ Indexed w.state.pool w.strings

/-- What a step that gives no result has done. -/
abbrev Done (res : EStateM.Result Fault Work Unit) (r : Except Fault State) : Prop :=
  Yields (fun _ st => st) res r

section

variable {view : α → State → β} {view' : γ → State → δ} {w : Work}

theorem Yields.ok {a : α} (hw : Indexed w.state.pool w.strings) :
    Yields view (.ok a w) (.ok (view a w.state)) := Meets.ok ⟨rfl, hw⟩

theorem Yields.error {fault : Fault} : Yields view (.error fault w) (.error fault) := Meets.error

theorem Yields.bind {m : Emitting α} {k : α → Emitting γ} {r : Except Fault β}
    {g : β → Except Fault δ} (hm : Yields view (m w) r)
    (hk : ∀ a w', Indexed w'.state.pool w'.strings → Yields view' (k a w') (g (view a w'.state))) :
    Yields view' ((m >>= k) w) (r >>= g) := by
  refine Meets.bind hm ?_
  rintro a w' _ ⟨rfl, hw⟩
  exact hk a w' hw

theorem Done.bind {m : Emitting Unit} {k : Unit → Emitting γ} {r : Except Fault State}
    {g : State → Except Fault δ} (hm : Done (m w) r)
    (hk : ∀ w', Indexed w'.state.pool w'.strings → Yields view' (k () w') (g w'.state)) :
    Yields view' ((m >>= k) w) (r >>= g) :=
  Yields.bind hm fun _ => hk

/-- A result that does not depend on the work leaves it as it was. -/
theorem Yields.ofExcept {r : Except Fault α} {k : α → Emitting γ} {g : α → Except Fault δ}
    (hk : ∀ a, Yields view' (k a w) (g a)) : Yields view' ((ofExcept r >>= k) w) (r >>= g) := by
  cases r with
  | ok a => exact hk a
  | error fault => exact .error

theorem Yields.visible {k : List (String × Binding) → Emitting γ} {r : Except Fault δ}
    (h : Yields view' (k w.state.visible w) r) : Yields view' ((Emitter.visible >>= k) w) r := h

theorem Yields.newLabel {k : Nat → Emitting γ} {r : Except Fault δ}
    (h : Yields view' (k w.state.newLabel.1 ⟨w.state.newLabel.2, w.strings⟩) r) :
    Yields view' ((Emitter.newLabel >>= k) w) r := h

theorem Yields.change {f : State → State} {k : Unit → Emitting γ} {r : Except Fault δ}
    (h : Yields view' (k () ⟨f w.state, w.strings⟩) r) :
    Yields view' ((Emitter.change f >>= k) w) r := h

/-- A change of the method under construction, after which there is a value or not. -/
theorem changed_yields {w : Work} (hw : Indexed w.state.pool w.strings) {f : State → State}
    (hf : (f w.state).pool = w.state.pool) (leaves : Bool) :
    Yields Prod.mk ((change f >>= fun _ => pure leaves) w) (pure (leaves, f w.state)) := by
  refine Yields.ok (w := ⟨f w.state, w.strings⟩) ?_
  rw [hf]
  exact hw

end

theorem pool_emitAll (is : List Instr) : ∀ st : State, (st.emitAll is).pool = st.pool := by
  induction is with
  | nil => exact fun _ => rfl
  | cons i is ih => exact fun st => ih (st.emit i)

theorem pool_pushTruth (st : State) (branch : Nat → Instr) (taken : Int64) :
    (st.pushTruth branch taken).pool = st.pool := (rest_pushTruth st branch taken).2.1

theorem operand_yields {w : Work} (hw : Indexed w.state.pool w.strings) (ty target : Ty)
    (leaves : Bool) :
    Done (operand ty target leaves w) (Lowering.operand ty target (leaves, w.state)) := by
  cases leaves with
  | false => exact .error
  | true =>
    by_cases h : ty = .integer ∧ target = .float
    · simp only [operand, Lowering.operand, h, if_true]
      exact .ok hw
    · simp only [operand, Lowering.operand, h, if_true, if_false]
      exact .ok hw

theorem discard_yields {w : Work} (hw : Indexed w.state.pool w.strings) (leaves : Bool) :
    Done (discard leaves w) (.ok (discarded (leaves, w.state))) := by
  cases leaves with
  | false => exact .ok hw
  | true => exact .ok hw

theorem indexed_push {pool : Array String} {strings : Index String} (h : Indexed pool strings)
    {s : String} (hs : strings.lookup s = none) :
    Indexed (pool.push s) ((s, pool.size) :: strings) := by
  intro t
  rw [List.lookup_cons, Array.findIdx?_push, ← h t]
  by_cases ht : t = s
  · subst ht
    simp [hs]
  · have hne : (t == s) = false := by simpa using ht
    simp [hne, Ne.symm ht]

theorem intern_yields {w : Work} (hw : Indexed w.state.pool w.strings) (s : String) :
    Yields Prod.mk (intern s w) (.ok (w.state.intern s)) := by
  obtain ⟨state, strings⟩ := w
  have hlook := hw s
  unfold intern State.intern
  dsimp only at hlook ⊢
  rw [← hlook]
  cases hs : strings.lookup s with
  | some id => exact .ok hw
  | none => exact .ok (indexed_push hw hs)

theorem literal_yields {w : Work} (hw : Indexed w.state.pool w.strings) (v : Literal) :
    Done (literal v w) (.ok (w.state.literal v)) := by
  cases v with
  | string s =>
    refine (intern_yields hw s).bind (g := fun r => .ok (r.2.emit (.pushStr r.1)))
      fun id w hw => ?_
    exact .ok (w := ⟨w.state.emit (.pushStr id), w.strings⟩) hw
  | integer v => exact .ok hw
  | float bits => exact .ok hw
  | boolean b => exact .ok hw

theorem declareLocal_yields {w : Work} (hw : Indexed w.state.pool w.strings) (name : String)
    (ty : Ty) : Yields Prod.mk (declareLocal name ty w) (w.state.declare name ty) := by
  obtain ⟨⟨draft, pool, visible⟩, strings⟩ := w
  unfold declareLocal State.declare Draft.allocLocal
  dsimp only
  by_cases hlimit : draft.locals.size < slotLimit
  · simp only [hlimit, if_true]
    exact .ok hw
  · simp only [hlimit, if_false]
    exact .error

/-! ### Expressions -/

section

variable {e : Emitter} {M : Methods}

theorem Yields.operand {view' : γ → State → δ} {w : Work} {m : Emitting Bool}
    {k : Unit → Emitting γ} {r : Except Fault (Bool × State)} {g : State → Except Fault δ}
    {ty target : Ty} (hm : Yields Prod.mk (m w) r)
    (hk : ∀ w', Indexed w'.state.pool w'.strings → Yields view' (k () w') (g w'.state)) :
    Yields view' ((m >>= fun a => Emitter.operand ty target a >>= k) w)
      (r >>= fun a => Lowering.operand ty target a >>= g) :=
  hm.bind fun a _ hw => (operand_yields hw ty target a).bind hk

mutual

theorem lowerValue_yields (hp : Plans e M) :
    ∀ (x : Expr) {w : Work}, Indexed w.state.pool w.strings →
      Yields Prod.mk (lowerValue e x w) (Lowering.lowerValue M w.state x)
  | .literal _ v, w, hw => by
    rw [lowerValue, Lowering.lowerValue]
    exact (literal_yields hw v).bind (g := fun st => .ok (true, st)) fun _ hw => .ok hw
  | .name _ x, w, hw => by
    rw [lowerValue, Lowering.lowerValue]
    exact .ofExcept fun b => .ok hw
  | .arith n op l r, w, hw => by
    rw [lowerValue, Lowering.lowerValue]
    refine .ofExcept fun i => ?_
    exact (lowerValue_yields hp l hw).operand fun _ hw =>
      (lowerValue_yields hp r hw).operand fun _ hw => .ok hw
  | .compare _ op l r, w, hw => by
    rw [lowerValue, Lowering.lowerValue]
    refine .ofExcept fun plan => ?_
    refine (lowerValue_yields hp l hw).operand fun _ hw =>
      (lowerValue_yields hp r hw).operand fun w hw => changed_yields hw ?_ true
    rw [pool_pushTruth, pool_emitAll]
  | .logic _ op l r, w, hw => by
    rw [lowerValue, Lowering.lowerValue]
    exact (lowerValue_yields hp l hw).operand fun _ hw =>
      (lowerValue_yields hp r hw).operand fun w hw => changed_yields hw (pool_pushTruth ..) true
  | .not _ x, w, hw => by
    rw [lowerValue, Lowering.lowerValue]
    exact (lowerValue_yields hp x hw).operand fun _ hw =>
      changed_yields hw (pool_pushTruth ..) true
  | .index _ a is, w, hw => by
    rw [lowerValue, Lowering.lowerValue]
    refine .ofExcept fun b => ?_
    have his := lowerAll_yields hp (List.replicate is.length .integer) is
      (w := ⟨w.state.emit b.slot.load, w.strings⟩) hw
    exact his.bind fun _ hw => .ofExcept fun i => .ok hw
  | .call _ f args, w, hw => by
    rw [lowerValue, Lowering.lowerValue, hp]
    refine .ofExcept fun plan => ?_
    refine (lowerAll_yields hp plan.1 args hw).bind fun _ hw => ?_
    exact .ofExcept fun code => changed_yields hw (pool_emitAll ..) plan.2.2
  | .newArray _ element dims, w, hw => by
    rw [lowerValue, Lowering.lowerValue]
    refine (lowerAll_yields hp (List.replicate dims.length .integer) dims hw).bind fun _ hw => ?_
    by_cases hrank : 1 ≤ dims.length ∧ dims.length ≤ Ty.maxRank
    · simp only [hrank, and_self, if_true]
      exact .ok hw
    · simp only [hrank, if_false]
      exact .error

theorem lowerAll_yields (hp : Plans e M) :
    ∀ (ts : List Ty) (xs : List Expr) {w : Work}, Indexed w.state.pool w.strings →
      Done (lowerAll e ts xs w) (Lowering.lowerAll M w.state ts xs)
  | t :: ts, x :: xs, w, hw => by
    rw [lowerAll, Lowering.lowerAll]
    exact (lowerValue_yields hp x hw).operand fun _ hw => lowerAll_yields hp ts xs hw
  | [], [], _, hw => .ok hw
  | [], _ :: _, _, hw => .ok hw
  | _ :: _, [], _, hw => .ok hw

end

theorem lowerAs_yields (hp : Plans e M) (x : Expr) (target : Ty) {w : Work}
    (hw : Indexed w.state.pool w.strings) :
    Done (lowerAs e x target w) (Lowering.lowerAs M w.state x target) :=
  (lowerValue_yields hp x hw).bind fun leaves _ hw => operand_yields hw x.ty target leaves

/-! ### Statements -/

theorem lowerElement_yields (hp : Plans e M) (array : String) (indices : List Expr) (value : Expr)
    {w : Work} (hw : Indexed w.state.pool w.strings) :
    Done (lowerElement e array indices value w)
      (Lowering.lowerElement M w.state array indices value) := by
  unfold lowerElement Lowering.lowerElement
  refine .ofExcept fun b => ?_
  cases b.ty with
  | array element rank =>
    by_cases hrank : rank = indices.length
    · simp only [hrank, ne_eq, not_true, if_false]
      have his := lowerAll_yields hp (List.replicate indices.length .integer) indices
        (w := ⟨w.state.emit b.slot.load, w.strings⟩) hw
      exact his.bind fun _ hw => (lowerAs_yields hp value element.toTy hw).bind fun _ hw => .ok hw
    · simp only [ne_eq, hrank, not_false_eq_true, if_true]
      exact .error
  | _ => exact .error

mutual

theorem lowerStmt_yields (hp : Plans e M) (returnType : Ty) :
    ∀ (s : Stmt) {w : Work}, Indexed w.state.pool w.strings →
      Done (lowerStmt e returnType s w) (Lowering.lowerStmt M returnType w.state s)
  | .expr _ x, w, hw => by
    rw [lowerStmt, Lowering.lowerStmt]
    exact (lowerValue_yields hp x hw).bind fun leaves _ hw => discard_yields hw leaves
  | .decl _ name ty none, w, hw => by
    rw [lowerStmt, Lowering.lowerStmt]
    exact (declareLocal_yields hw name ty).bind fun _ _ hw => .ok hw
  | .decl _ name ty (some init), w, hw => by
    rw [lowerStmt, Lowering.lowerStmt]
    exact (lowerAs_yields hp init ty hw).bind fun _ hw =>
      (declareLocal_yields hw name ty).bind fun _ _ hw => .ok hw
  | .assign _ name _ value, w, hw => by
    rw [lowerStmt, Lowering.lowerStmt]
    refine .ofExcept fun b => ?_
    exact (lowerAs_yields hp value b.ty hw).bind fun _ hw => .ok hw
  | .assignElement _ array indices _ value, w, hw => by
    rw [lowerStmt, Lowering.lowerStmt]
    exact lowerElement_yields hp array indices value hw
  | .ifThen _ cond body, w, hw => by
    rw [lowerStmt, Lowering.lowerStmt]
    refine .visible <| .newLabel <| .newLabel ?_
    refine Done.bind (lowerAs_yields hp cond .boolean hw) fun _ hw => ?_
    refine .change <| .change <| .change ?_
    exact Done.bind (lowerStmts_yields hp returnType body hw) fun _ hw => .ok hw
  | .ifElse _ cond body other, w, hw => by
    rw [lowerStmt, Lowering.lowerStmt]
    refine .visible <| .newLabel <| .newLabel ?_
    refine Done.bind (lowerAs_yields hp cond .boolean hw) fun _ hw => .change ?_
    refine Done.bind (lowerStmts_yields hp returnType other hw) fun _ hw => ?_
    refine .change <| .change <| .change ?_
    exact Done.bind (lowerStmts_yields hp returnType body hw) fun _ hw => .ok hw
  | .while _ cond body, w, hw => by
    rw [lowerStmt, Lowering.lowerStmt]
    refine .visible <| .newLabel <| .newLabel <| .newLabel <| .change ?_
    refine Done.bind (lowerAs_yields hp cond .boolean hw) fun _ hw => ?_
    refine .change <| .change <| .change ?_
    exact Done.bind (lowerStmts_yields hp returnType body hw) fun _ hw => .ok hw
  | .doWhile _ body cond, w, hw => by
    rw [lowerStmt, Lowering.lowerStmt]
    refine .visible <| .newLabel <| .newLabel <| .newLabel <| .change ?_
    refine Done.bind (lowerStmts_yields hp returnType body hw) fun _ hw => ?_
    refine .change <| .change ?_
    exact Done.bind (lowerAs_yields hp cond .boolean hw) fun _ hw => .ok hw
  | .ret _ none, w, hw => by
    rw [lowerStmt, Lowering.lowerStmt]
    exact .ok hw
  | .ret _ (some value), w, hw => by
    rw [lowerStmt, Lowering.lowerStmt]
    cases returnType.isValue with
    | true => exact Done.bind (lowerAs_yields hp value returnType hw) fun _ hw => .ok hw
    | false =>
      refine Yields.bind (lowerValue_yields hp value hw) fun leaves w hw => ?_
      cases leaves with
      | true => exact .ok hw
      | false => exact .ok hw
  | .block _ body, w, hw => by
    rw [lowerStmt, Lowering.lowerStmt]
    refine .visible ?_
    exact Done.bind (lowerStmts_yields hp returnType body hw) fun _ hw => .ok hw

theorem lowerStmts_yields (hp : Plans e M) (returnType : Ty) :
    ∀ (ss : List Stmt) {w : Work}, Indexed w.state.pool w.strings →
      Done (lowerStmts e returnType ss w) (Lowering.lowerStmts M returnType w.state ss)
  | [], _, hw => .ok hw
  | s :: rest, w, hw => by
    rw [lowerStmts, Lowering.lowerStmts]
    exact (lowerStmt_yields hp returnType s hw).bind fun _ hw =>
      lowerStmts_yields hp returnType rest hw

end

end

/-! ### Tables of methods -/

/-- What calls and other bodies see of a method. -/
def head (m : Method) : String × List Ty × Ty × Option Nat :=
  (m.name, m.params, m.returnType, m.host)

/-- The host routine that a signature stands for. -/
def routineOf? (M : Methods) (name : String) (arity : Nat) : Option Nat :=
  (M.findIdx? (·.hasSignature name arity)).bind fun id => M[id]?.bind (·.host)

/-- The methods, host routines and texts that the emitter holds, with tables that are right.  The
methods of the image may have got their code since they were declared. -/
structure Holds (e : Emitter) (M : Methods) (routines : Array HostRoutine) (pool : Array String) :
    Prop where
  methods : ∀ name arity,
    e.methods.lookup (name, arity) = M.findIdx? (·.hasSignature name arity)
  externals : ∀ name arity, e.externals.lookup (name, arity) = routineOf? M name arity
  heads : e.image.methods.map head = M.map head
  routines : e.image.hostRoutines = routines
  indexed : Indexed pool e.strings
  pool : e.image.strings = pool

theorem head_eq {M M' : Methods} (h : M'.map head = M.map head) (id : Nat) :
    M'[id]?.map head = M[id]?.map head := by
  rw [← Array.getElem?_map, h, Array.getElem?_map]

theorem findIdx?_heads {M M' : Methods} (h : M'.map head = M.map head) (name : String)
    (arity : Nat) :
    M'.findIdx? (·.hasSignature name arity) = M.findIdx? (·.hasSignature name arity) := by
  have hsig : (fun m : Method => m.hasSignature name arity) =
      (fun h : String × List Ty × Ty × Option Nat => decide (h.1 = name ∧ h.2.1.length = arity)) ∘
        head := rfl
  rw [hsig, ← Array.findIdx?_map, h, Array.findIdx?_map]

theorem Holds.plans {e : Emitter} {M : Methods} {routines : Array HostRoutine}
    {pool : Array String} (h : Holds e M routines pool) : Plans e M := by
  intro name args
  have hext := h.externals name args.length
  unfold callPlan
  rw [h.methods, hext, routineOf?]
  cases hid : M.findIdx? (·.hasSignature name args.length) with
  | none => simp [Lowering.callPlan, hid]
  | some id =>
    have hhead := head_eq h.heads id
    unfold Lowering.callPlan
    rw [hid]
    dsimp only
    cases hm : M[id]? with
    | none =>
      rw [hm, Option.map_none, Option.map_eq_none_iff] at hhead
      rw [hhead]
    | some m =>
      rw [hm, Option.map_some, Option.map_eq_some_iff] at hhead
      obtain ⟨m', hm', heq⟩ := hhead
      simp only [head, Prod.mk.injEq] at heq
      obtain ⟨-, hparams, hret, -⟩ := heq
      rw [hm']
      cases hhost : m.host <;>
        simp only [Option.bind_some, hm, hhost, hparams, Method.returnsValue, hret]

/-! ### Programs -/

theorem holds_new : Holds new #[] #[] #[] :=
  ⟨by simp [new], by simp [new, routineOf?], rfl, rfl, fun _ => by simp [new], rfl⟩

theorem signature_ne {name name' : String} {arity arity' : Nat}
    (h : ¬ (name = name' ∧ arity = arity')) : ((name', arity') == (name, arity)) = false := by
  rw [beq_eq_false_iff_ne]
  intro heq
  obtain ⟨rfl, rfl⟩ := Prod.mk.inj heq
  exact h ⟨rfl, rfl⟩

section

variable {M : Methods} {m : Method}
  (hnew : M.findIdx? (·.hasSignature m.name m.arity) = none)
include hnew

/-- A new method behind the others, and its signature in front of the table. -/
theorem lookup_push {index : Index Signature}
    (h : ∀ name arity, index.lookup (name, arity) = M.findIdx? (·.hasSignature name arity))
    (name : String) (arity : Nat) :
    List.lookup (name, arity) (((m.name, m.arity), M.size) :: index) =
      (M.push m).findIdx? (·.hasSignature name arity) := by
  rw [List.lookup_cons, Array.findIdx?_push]
  by_cases hsig : m.name = name ∧ m.arity = arity
  · obtain ⟨rfl, rfl⟩ := hsig
    rw [hnew]
    simp [Method.hasSignature]
  · rw [signature_ne hsig, h]
    simp [Method.hasSignature, hsig]

theorem routineOf?_push (name : String) (arity : Nat) : routineOf? (M.push m) name arity =
    if m.name = name ∧ m.arity = arity then m.host else routineOf? M name arity := by
  unfold routineOf?
  rw [Array.findIdx?_push]
  by_cases hsig : m.name = name ∧ m.arity = arity
  · obtain ⟨rfl, rfl⟩ := hsig
    rw [hnew]
    simp [Method.hasSignature]
  · simp only [Method.hasSignature, hsig, decide_false, Bool.false_eq_true, if_false,
      Option.or_none]
    cases hid : M.findIdx? (fun m => decide (m.name = name ∧ m.arity = arity)) with
    | none => rfl
    | some id =>
      obtain ⟨hlt, -⟩ := Array.findIdx?_eq_some_iff_getElem.mp hid
      rw [Option.bind_some, Option.bind_some, Array.getElem?_push, if_neg (by omega)]

end

/-- One more method of a new signature, which may have a host routine. -/
theorem Holds.push {e e' : Emitter} {M : Methods} {routines routines' : Array HostRoutine}
    {pool : Array String} (h : Holds e M routines pool) {m : Method} {name : String} {arity : Nat}
    (hname : m.name = name) (harity : m.arity = arity)
    (hnew : M.findIdx? (·.hasSignature name arity) = none)
    (hmethods : e'.methods = ((name, arity), M.size) :: e.methods)
    (hext : ∀ name' arity', e'.externals.lookup (name', arity') =
      if name = name' ∧ arity = arity' then m.host else routineOf? M name' arity')
    (hheads : e'.image.methods = M.push m) (hroutines : e'.image.hostRoutines = routines')
    (hpool : e'.image.strings = e.image.strings) (hstrings : e'.strings = e.strings) :
    Holds e' (M.push m) routines' pool := by
  subst hname harity
  exact {
    methods := fun name arity => hmethods ▸ lookup_push hnew h.methods name arity
    externals := fun name arity => (hext name arity).trans (routineOf?_push hnew name arity).symm
    heads := congrArg _ hheads
    routines := hroutines
    indexed := hstrings ▸ h.indexed
    pool := hpool.trans h.pool }

/-- What is declared stands in the image and in the tables, and no method has code yet. -/
structure Declares (e : Emitter) (d : Declared) : Prop where
  holds : Holds e d.methods d.hostRoutines #[]
  methods : e.image.methods = d.methods

theorem declare_meets {e : Emitter} {d : Declared} (h : Declares e d) (f : FunctionDecl) :
    Meets (fun _ e' d' => Declares e' d') (declare f e) (declareMethod d f) := by
  obtain ⟨hh, hmethods⟩ := h
  have hany : (e.methods.lookup (f.name, f.arity)).isSome =
      d.methods.any (·.hasSignature f.name f.arity) := by
    rw [hh.methods, Array.findIdx?_isSome]
  unfold declare declareMethod
  rw [hany]
  cases htwice : d.methods.any (·.hasSignature f.name f.arity) with
  | true => exact .error
  | false =>
    have hnew : d.methods.findIdx? (·.hasSignature f.name f.arity) = none := by
      rw [← Option.not_isSome_iff_eq_none, Array.findIdx?_isSome, htwice]
      decide
    have harity : (f.params.map (·.ty)).length = f.arity := List.length_map ..
    cases hext : f.external with
    | none =>
      simp only [Bool.false_eq_true, if_false, hmethods]
      refine .ok ⟨hh.push rfl harity hnew rfl (fun name' arity' => ?_) rfl hh.routines rfl rfl, rfl⟩
      show e.externals.lookup (name', arity') = _
      rw [hh.externals]
      split
      · next hsig =>
        obtain ⟨rfl, rfl⟩ := hsig
        rw [routineOf?, hnew, Option.bind_none]
        rfl
      · rfl
    | some package =>
      simp only [Bool.false_eq_true, if_false, hmethods, hh.routines]
      refine .ok ⟨hh.push rfl harity hnew rfl (fun name' arity' => ?_) rfl rfl rfl rfl, rfl⟩
      show List.lookup (name', arity') (((f.name, f.arity), _) :: e.externals) = _
      rw [List.lookup_cons, hh.externals]
      by_cases hsig : f.name = name' ∧ f.arity = arity'
      · obtain ⟨rfl, rfl⟩ := hsig
        simp
      · rw [signature_ne hsig, if_neg hsig]

theorem declareAll_meets : ∀ (fs : List FunctionDecl) {e : Emitter} {d : Declared}, Declares e d →
    Meets (fun _ e' d' => Declares e' d') (declareAll fs e) (declareMethods d fs)
  | [], _, _, h => .ok h
  | f :: rest, _, _, h => (declare_meets h f).bind fun _ _ _ h => declareAll_meets rest h

/-- The method of a body, and the pool after it in the emitter, which is as it was otherwise. -/
theorem lowerFunction_meets {e : Emitter} {M : Methods} {routines : Array HostRoutine}
    {pool : Array String} (h : Holds e M routines pool) (f : FunctionDecl) :
    Meets (fun m e' b => m = b.1 ∧ Holds e' M routines b.2 ∧ e'.image.methods = e.image.methods)
      (lowerFunction f e) (Lowering.lowerFunction M pool f) := by
  unfold lowerFunction Lowering.lowerFunction
  by_cases hlimit : slotLimit < f.arity
  · simp only [hlimit, if_true]
    exact .error
  simp only [hlimit, if_false]
  have hindexed : Indexed e.image.strings e.strings := h.pool.symm ▸ h.indexed
  have hbody := lowerStmts_yields h.plans f.returnType f.body (w := ⟨⟨Draft.new f.name
    (f.params.map (·.ty)) f.returnType, e.image.strings, bindParams [] 0 f.params⟩, e.strings⟩)
    hindexed
  rw [h.pool] at hbody ⊢
  dsimp only at hbody
  generalize lowerStmts e f.returnType f.body _ = res,
    Lowering.lowerStmts M f.returnType _ f.body = r at hbody ⊢
  cases hbody with
  | error => exact .error
  | @ok _ w st hst =>
    obtain ⟨rfl, hw⟩ := hst
    show Meets _ _
      (((w.state.draft.emit .nop).emit .ret).finish >>= fun m => .ok (m, w.state.pool))
    dsimp only
    cases ((w.state.draft.emit .nop).emit .ret).finish with
    | error fault => exact .error
    | ok m => exact .ok ⟨rfl, ⟨h.methods, h.externals, h.heads, h.routines, hw, rfl⟩, rfl⟩

/-- The bodies of functions, where the methods before them are done and they and those behind them
are as they were declared. -/
theorem lowerBodies_meets {M : Methods} {routines : Array HostRoutine} :
    ∀ (fs : List FunctionDecl) {e : Emitter} {pool : Array String} {done : Array Method},
      Holds e M routines pool → e.image.methods.toList = done.toList ++ M.toList.drop done.size →
      List.Forall₂ (MethodOf routines) (M.toList.drop done.size) fs →
      Meets (fun _ e' b => Holds e' M routines b.2 ∧ e'.image.methods = b.1)
        (lowerBodies done.size fs e) (lowerFunctions M pool done fs)
  | [], e, pool, done, h, himage, hdecl => by
    rw [List.forall₂_nil_right_iff.mp hdecl, List.append_nil] at himage
    exact .ok ⟨h, Array.ext' himage⟩
  | f :: rest, e, pool, done, h, himage, hdecl => by
    obtain ⟨m, ms, hm, hrest, hdrop⟩ := List.forall₂_cons_right_iff.mp hdecl
    have hat : M[done.size]? = some m := by
      rw [← Array.getElem?_toList, ← List.head?_drop, hdrop, List.head?_cons]
    have hms : M.toList.drop (done.size + 1) = ms := by
      rw [← List.tail_drop, hdrop, List.tail_cons]
    rw [hdrop] at himage
    unfold lowerBodies lowerFunctions
    cases hext : f.isExternal with
    | true =>
      simp only [if_true, hat]
      rw [← Array.size_push m]
      refine lowerBodies_meets rest h ?_ ?_
      · rw [Array.size_push, hms, himage]
        simp
      · rw [Array.size_push, hms]
        exact hrest
    | false =>
      simp only [Bool.false_eq_true, if_false]
      refine (lowerFunction_meets h f).known.bind fun m' e' b hb => ?_
      obtain ⟨⟨rfl, hholds, hsame⟩, hlowered⟩ := hb
      obtain ⟨⟨hname, hparams, hret, hhost⟩, -⟩ := lowerFunction_layout hlowered
      have hnone : f.external = none := by simpa [FunctionDecl.isExternal] using hext
      have hhead : head b.1 = head m := by
        rw [head, head, hname, hparams, hret, hhost, hm.name, hm.params, hm.returnType,
          hm.body hnone]
      have hpatched : (e'.image.methods.setIfInBounds done.size b.1).toList =
          (done.push b.1).toList ++ ms := by
        rw [hsame, Array.toList_setIfInBounds, himage,
          List.set_append_right _ _ (by simp)]
        simp
      have hsize : (done.push b.1).size = done.size + 1 := Array.size_push ..
      rw [← hsize] at hms ⊢
      refine lowerBodies_meets rest (e := { e' with
        image.methods := e'.image.methods.setIfInBounds done.size b.1 }) ?_ ?_ ?_
      · refine ⟨hholds.methods, hholds.externals, ?_, hholds.routines, hholds.indexed,
          hholds.pool⟩
        rw [← hholds.heads]
        apply Array.ext'
        rw [Array.toList_map, Array.toList_map, hpatched, hsame, himage]
        simp [hhead]
      · rw [hms]
        exact hpatched
      · rw [hms]
        exact hrest

theorem entry?_eq {e : Emitter} {M : Methods} {routines : Array HostRoutine} {pool : Array String}
    (h : Holds e M routines pool) : e.entry? = entryOf e.image.methods := by
  unfold entry? entryOf
  rw [h.methods, ← findIdx?_heads h.heads]
  cases e.image.methods.findIdx? (·.hasSignature "main" 0) with
  | none => rfl
  | some id => rfl

/-- Whatever the emitter holds, it gives the image or the fault of the lowering without tables. -/
theorem lowerProgram_meets (e : Emitter) (p : Program) :
    Meets (fun image _ image' => image = image') (lowerProgram p e) (Lowering.lowerProgram p) := by
  have hnew : Declares e.reset ⟨#[], #[]⟩ := ⟨holds_new, rfl⟩
  refine ((declareAll_meets p.functions hnew).known).bind fun _ e' d hd => ?_
  obtain ⟨⟨hholds, hmethods⟩, hdeclared⟩ := hd
  obtain ⟨-, ms, hms, hdecl⟩ := declareMethods_layout hdeclared
  obtain rfl : d.methods.toList = ms := by simpa using hms
  have himage : e'.image.methods.toList =
      (#[] : Array Method).toList ++ d.methods.toList.drop (#[] : Array Method).size := by
    simp [hmethods]
  refine (lowerBodies_meets p.functions hholds himage hdecl).bind fun _ e' b hb => ?_
  obtain ⟨methods, strings⟩ := b
  obtain ⟨hholds, rfl⟩ := hb
  have hpool : e'.image.strings = strings := hholds.pool
  refine .ok ?_
  rw [entry?_eq hholds, ← hholds.routines, ← hpool]

theorem fst_lower (e : Emitter) (p : Program) : (e.lower p).1 = Lowering.lowerProgram p := by
  have hmeets := lowerProgram_meets e p
  unfold lower
  generalize lowerProgram p e = res, Lowering.lowerProgram p = r at hmeets ⊢
  cases hmeets with
  | ok h => rw [h]
  | error => rfl

end Quill.Lowering.Emitter
