import Quill.Proofs.Lowering.Verified
import Quill.Proofs.Meaning.Operations
import Quill.Proofs.Meaning.Variables

/-! # The code of an expression follows its evaluation

A frame that holds the variables of an evaluation runs the code of an expression just as the
expression is evaluated, and then has the value on top of its operands.  Calls are taken for
granted (`CallsOk`): that they follow the evaluation is shown from the bodies of functions. -/

namespace Quill.Meaning

open Code Machine
open Typing (Comparison.eq_boolean_of_result? ConditionOk Ctx ElementOk ExprOk ExprsOk ReadOk)
open Lowering (ArgsCode AsCode Binding call_cases CallsFunction CodeAt ComparedBy DiscardCode
  ExprCode Fits Forall₂.getElem? index_fits logic_cases Methods ne_undefined_of_isValue own_fits
  Point Site SlotOk TruthCode Visible Widened)

/-- A frame of a method holds the variables of an evaluation, which have values of their types. -/
structure Live (u : Setup) (m : Method) (visible : Visible) (Γ : Ctx) (low : List Value) (f : Frame)
    (env : Env) (w : World) : Prop where
  stage : Stage u m low f
  sized : Sized m f
  holds : Holds f visible env
  env : EnvOk w.arrays Γ env
  arrays : ArraysOk w.arrays

/-- A live frame where the code of a point stands. -/
structure Scene (u : Setup) (M : Methods) (fs : List FunctionDecl) (m : Method) (p : Point) (Γ : Ctx)
    (low : List Value) (f : Frame) (env : Env) (w : World) : Prop
    extends Live u m p.visible Γ low f env w where
  site : Site u.image M fs m p Γ
  apart : Apart p.visible
  hosts : HostsOk u.image u.hosts

/-- Calls of the functions of the program follow the evaluation: from a state whose next instruction
starts the call, the run comes back to the caller with the result. -/
def CallsOk {σ : Type} (u : Setup) (o : Observer σ) (fs : List FunctionDecl) (n : Nat)
    (call : Calls) : Prop :=
  ∀ (id : Nat) g c, fs[id]? = some g → g.external = none → u.image.methods[id]? = some c →
    ∀ low ops f cs b k w args s, f.base = low.length → ArraysOk w.arrays →
      List.Forall₂ (HasTy w.arrays) args c.params →
      Comes u o 1 s (.of (low ++ ops.reverse) []
        (calledFrame c w k (low ++ ops.reverse).length id args) (f.to b :: cs)
        (calledEmpties c w k) w) →
      Simulates u o n s (call g args w) fun v w' s' =>
        Lands low f cs b ops w (resultTys g.returnType) v.toList w' s'

section

variable {σ : Type} {u : Setup} {o : Observer σ} {M : Methods} {fs : List FunctionDecl} {m : Method}
  {p : Point} {Γ : Ctx} {low ops : List Value} {f : Frame} {cs : List Frame} {env : Env}
  {w w' : World} {n k a b : Nat} {call : Calls}

/-! ### Operands -/

theorem Scene.world {τ : List Ty} {vs : List Value} (h : Scene u M fs m p Γ low f env w)
    (hl : Leaves w τ (vs, w')) : Scene u M fs m p Γ low f env w' :=
  { h with env := h.env.mono hl.keeps, arrays := hl.arrays }

theorem Lands.from {τ : List Ty} {vs : List Value} {w'' : World} {s : State}
    (h : Lands low f cs b ops w' τ vs w'' s) (hk : Keeps w.arrays w'.arrays) :
    Lands low f cs b ops w τ vs w'' s :=
  ⟨h.state, h.leaves.arrays, hk.trans h.leaves.keeps, h.leaves.operands⟩

theorem widen_of_hasTy {as : Arrays} {v : Value} {t : Ty} (h : HasTy as v t) : widen t v = v := by
  cases t with
  | float =>
    obtain ⟨x, rfl⟩ := h.exists_float
    rfl
  | _ => rfl

/-- The value of an operand and its conversion, and what comes next. -/
theorem Scene.operand {t target : Ty} {c : Nat} {x : Eval (Option Value)} {g : Value → Eval β}
    {s : State} {R : β → World → State → Prop} (h : Scene u M fs m p Γ low f env w)
    (hv : t.isValue = true) (hf : Fits t target) (hw : Widened m t target c b)
    (hx : Simulates u o n s (x w) fun v w' s' => Lands low f cs c ops w (resultTys t) v.toList w' s')
    (hg : ∀ v w' s', Lands low f cs b ops w [target] [v] w' s' → Simulates u o n s' (g v w') R) :
    Simulates u o n s ((x >>= fun r => valueAs target r >>= g) w) R := by
  refine hx.bind fun r w' s' hland => ?_
  obtain ⟨⟨k, rfl⟩, hleaves⟩ := hland
  obtain ⟨harr, hkeep, hops⟩ := hleaves
  rw [resultTys, if_pos hv] at hops
  obtain ⟨v, hr, hvt⟩ := Lowering.forall₂_singleton hops
  obtain rfl : r = some v := by
    cases r with
    | none => cases hr
    | some v' => exact congrArg some (List.cons.inj hr).1
  show Simulates u o n _ (g (widen target v) w') R
  unfold Widened at hw
  split at hw
  · next hconv =>
    obtain ⟨rfl, rfl⟩ := hconv
    obtain ⟨hi, rfl⟩ := hw
    obtain ⟨i, rfl⟩ := hvt.exists_int (.inl rfl)
    have hstep : Comes u o 1 (.of low (.int i :: ops) (f.to c) cs k w')
        (.of low (.float i.toFloat :: ops) (f.to (c + 1)) cs k w') := by
      refine h.stage.comes hi (by simp) ?_
      rw [step, popInt_bind (f := f.to (c + 1)) h.stage.base]
      exact push_of _
    refine (hstep.simulates (hg _ _ _ ⟨⟨k, rfl⟩, harr, hkeep, .cons trivial .nil⟩)).mono ?_
    exact Nat.le_add_left n 1
  · next hconv =>
    obtain rfl : t = target := hf.resolve_right hconv
    subst hw
    rw [widen_of_hasTy hvt]
    exact hg _ _ _ ⟨⟨k, rfl⟩, harr, hkeep, hops⟩

theorem Scene.load (h : Scene u M fs m p Γ low f env w) {x : String} {t : Ty} {y : Binding}
    (hr : ReadOk Γ x t) (hy : p.visible.lookup x = some y) (hi : m.code[a]? = some y.slot.load)
    (o : Observer σ) (ops : List Value) (cs : List Frame) (k : Nat) :
    ∃ v, read env x w = .ok v w ∧ HasTy w.arrays v t ∧
      Comes u o 1 (.of low ops (f.to a) cs k w) (.of low (v :: ops) (f.to (a + 1)) cs k w) := by
  obtain ⟨c, v, hc, _, hcv, hvt⟩ := h.env.read hr
  obtain ⟨c', hc', _, hslot⟩ := h.holds.lookup hy
  rw [hc] at hc'
  obtain rfl := Option.some.inj hc'
  have hval := hslot v hcv
  refine ⟨v, ?_, hvt, ?_⟩
  · rw [read, hc, Option.bind_some, hcv]
    rfl
  · cases hs : y.slot with
    | arg j =>
      rw [hs] at hi hval
      exact h.stage.comes hi (by simp [Lowering.Slot.load]) (loadArg_of hval)
    | «local» j =>
      rw [hs] at hi hval
      exact h.stage.comes hi (by simp [Lowering.Slot.load]) (loadLocal_of hval)

theorem Simulates.from {τ : List Ty} {x : EStateM.Result Stop World β} {out : β → List Value}
    {s : State} (h : Simulates u o n s x fun v w'' s' => Lands low f cs b ops w' τ (out v) w'' s')
    (hk : Keeps w.arrays w'.arrays) :
    Simulates u o n s x fun v w'' s' => Lands low f cs b ops w τ (out v) w'' s' :=
  h.imp fun _ _ _ hland => hland.from hk

theorem Scene.operands {l r target : Ty} {c c₁ c₂ e : Nat} {x y : Eval (Option Value)}
    {g : Value → Value → Eval β} {s : State} {τ : List Ty} {out : β → List Value}
    (h : Scene u M fs m p Γ low f env w) (hl : l.isValue = true) (hr : r.isValue = true)
    (hlf : Fits l target) (hrf : Fits r target) (hlw : Widened m l target c₁ c)
    (hrw : Widened m r target c₂ b)
    (hx : Simulates u o n s (x w) fun v w' s' =>
      Lands low f cs c₁ ops w (resultTys l) v.toList w' s')
    (hy : ∀ v k w', Scene u M fs m p Γ low f env w' →
      Simulates u o n (.of low (v :: ops) (f.to c) cs k w') (y w') fun v' w'' s' =>
        Lands low f cs c₂ (v :: ops) w' (resultTys r) v'.toList w'' s')
    (hg : ∀ v v' k w', Scene u M fs m p Γ low f env w' → HasTy w'.arrays v target →
      HasTy w'.arrays v' target →
      Simulates u o n (.of low (v' :: v :: ops) (f.to b) cs k w') (g v v' w') fun a w'' s' =>
        Lands low f cs e ops w' τ (out a) w'' s') :
    Simulates u o n s ((x >>= fun v => valueAs target v >>= fun v => y >>= fun v' =>
      valueAs target v' >>= g v) w) fun a w' s' => Lands low f cs e ops w τ (out a) w' s' := by
  refine h.operand hl hlf hlw hx fun v w₁ s₁ hland => ?_
  obtain ⟨⟨k₁, rfl⟩, hleaves⟩ := hland
  have h₁ := h.world hleaves
  refine h₁.operand hr hrf hrw (hy v k₁ w₁ h₁) fun v' w₂ s₂ hland' => ?_
  obtain ⟨⟨k₂, rfl⟩, hleaves'⟩ := hland'
  obtain _ | ⟨hv, _⟩ := hleaves.operands
  obtain _ | ⟨hv', _⟩ := hleaves'.operands
  exact (hg v v' k₂ w₂ (h₁.world hleaves') (hv.mono hleaves'.keeps) hv').from
    (hleaves.keeps.trans hleaves'.keeps)

/-! ### Operations on operands -/

theorem Scene.instruction (h : Scene u M fs m p Γ low f env w) {i : Instr} {τ τ' : List Ty}
    {vs : List Value} {x : EStateM.Result Stop World β} {out : β → List Value}
    (hi : m.code[a]? = some i) (ht : Takes u.image i τ τ')
    (hvs : List.Forall₂ (HasTy w.arrays) vs τ)
    (hx : ∀ r, effect u.image u.hosts w i vs = some r → Follows out w x r) :
    Simulates u o n (.of low (vs ++ ops) (f.to a) cs k w) x fun v w' s' =>
      Lands low f cs (a + 1) ops w τ' (out v) w' s' :=
  h.stage.effect h.hosts h.arrays hi ht hvs hx

theorem simulates_some {x : Eval Value} {s : State} {τ : List Ty}
    (h : Simulates u o n s (x w') fun v w'' s' => Lands low f cs b ops w τ [v] w'' s') :
    Simulates u o n s ((x >>= fun v => pure (some v)) w') fun v w'' s' =>
      Lands low f cs b ops w τ v.toList w'' s' :=
  h.bind fun _ _ _ hland => .pure hland

theorem Scene.truthValue (h : Scene u M fs m p Γ low f env w) {s : State} {j : Nat} {c : Bool}
    (hj : Comes u o j s (.of low (.ofBool c :: ops) (f.to b) cs k w)) :
    Simulates u o n s (.ok (some (.ofBool c)) w) fun v w' s' =>
      Lands low f cs b ops w [.boolean] v.toList w' s' :=
  ⟨j, _, hj, ⟨k, rfl⟩, h.arrays, .refl _, .cons (hasTy_ofBool _ c) .nil⟩

theorem comparedTy_of_plan {op : Comparison} {l r ty : Ty} {between : List Instr} {num : Numeric}
    (h : Lowering.comparisonPlan op l r = .ok (ty, between, num)) : comparedTy l r = ty := by
  unfold Lowering.comparisonPlan at h
  split at h
  · next x y hx hy =>
    rw [Ty.numeric?_eq_some_iff] at hx hy
    subst hx hy
    cases h
    cases x <;> cases y <;> rfl
  · split at h
    · next heq =>
      obtain ⟨rfl, rfl, _⟩ := heq
      cases h
      rfl
    · split at h
      · next heq =>
        obtain ⟨rfl, rfl, _⟩ := heq
        cases h
        rfl
      · cases h

theorem Scene.literal (h : Scene u M fs m p Γ low f env w) {v : Literal} {i : Instr}
    (hi : Lowering.LiteralInstr u.image.strings i v) (hcode : m.code[a]? = some i) :
    Simulates u o n (.of low ops (f.to a) cs k w) (.ok (some (ofLiteral v)) w) fun r w' s' =>
      Lands low f cs (a + 1) ops w (resultTys v.ty) r.toList w' s' := by
  refine h.instruction hcode (Lowering.literal_takes hi) .nil fun r hr => ?_
  have heffect : effect u.image u.hosts w i [] = some (.ok ([ofLiteral v], w)) := by
    cases v with
    | integer | float | boolean =>
      cases hi
      rfl
    | string s =>
      obtain ⟨id, rfl, hid⟩ := hi
      rw [effect, hid]
      rfl
  rw [heffect] at hr
  cases hr
  exact .ok rfl

section

variable {v v' : Value}

theorem Scene.arithmetic (h : Scene u M fs m p Γ low f env w) {op : ArithOp} {l r t : Ty}
    {i : Instr} (hres : op.result? l r = some t) (hi : Lowering.arithInstr op t = .ok i)
    (hcode : m.code[a]? = some i) (hv : HasTy w.arrays v t) (hv' : HasTy w.arrays v' t) :
    Simulates u o n (.of low (v' :: v :: ops) (f.to a) cs k w)
      ((arithmetic op v v' >>= fun r => pure (some r)) w) fun r w' s' =>
        Lands low f cs (a + 1) ops w (resultTys t) r.toList w' s' := by
  obtain ⟨_, _, hvalue, htakes⟩ := Lowering.arith_takes u.image hres hi
  rw [resultTys, if_pos hvalue]
  exact simulates_some (h.instruction hcode htakes (.cons hv' (.cons hv .nil)) fun r hr =>
    arithmetic_effect u.image u.hosts hres hi hv hv' hr)

theorem Scene.comparison (h : Scene u M fs m p Γ low f env w) {op : Comparison} {ty : Ty}
    {between : List Instr} {num : Numeric} (hcmp : ComparedBy op ty between num)
    (hcode : CodeAt m a between)
    (htruth : TruthCode m (.branchCmp op num) 1 (a + between.length) b)
    (hv : HasTy w.arrays v ty) (hv' : HasTy w.arrays v' ty) :
    Simulates u o n (.of low (v' :: v :: ops) (f.to a) cs k w)
      ((comparison op v v' >>= fun c => pure (some (.ofBool c))) w) fun r w' s' =>
        Lands low f cs b ops w [.boolean] r.toList w' s' := by
  cases hcmp with
  | numbers hcmp =>
    obtain ⟨c, hcomp, hholds⟩ := comparison_follows op hcmp hv hv'
    rw [bind_eq_of_ok hcomp]
    obtain ⟨j, hj⟩ : ∃ j, Comes u o j (.of low ([v', v] ++ ops) (f.to a) cs k w)
        (.of low (.ofBool (c == true) :: ops) (f.to b) cs k w) :=
      h.stage.truth true c htruth fun yes pos hi hpos => h.stage.branchCmp hi hpos hholds
    rw [beq_true] at hj
    exact h.truthValue hj
  | texts hop =>
    obtain ⟨s, rfl⟩ := hv.exists_str
    obtain ⟨s', rfl⟩ := hv'.exists_str
    obtain ⟨c, hcomp, hholds⟩ := textComparison_follows (w := w) hop s s'
    rw [bind_eq_of_ok hcomp]
    have heq : Comes u o 1 (.of low ([.str s', .str s] ++ ops) (f.to a) cs k w)
        (.of low ([.ofBool (s == s')] ++ ops) (f.to (a + 1)) cs k w) :=
      h.stage.comes_effect (hcode 0 _ rfl) (by simp) rfl
    have hone := heq.trans (h.stage.pushInt (hcode 1 _ rfl))
    obtain ⟨j, hj⟩ : ∃ j, Comes u o j (.of low ([.int 1, .ofBool (s == s')] ++ ops)
        (f.to (a + 2)) cs k w) (.of low (.ofBool (c == true) :: ops) (f.to b) cs k w) :=
      h.stage.truth true c htruth fun yes pos hi hpos => h.stage.branchCmp hi hpos hholds
    rw [beq_true] at hj
    exact h.truthValue (hone.trans hj)

theorem Scene.connective (h : Scene u M fs m p Γ low f env w) {op : LogicOp}
    (hcode : m.code[a]? = some (Lowering.logicInstr op))
    (htruth : TruthCode m .branchIfTrue 1 (a + 1) b)
    (hv : HasTy w.arrays v .boolean) (hv' : HasTy w.arrays v' .boolean) :
    Simulates u o n (.of low (v' :: v :: ops) (f.to a) cs k w)
      ((truth v >>= fun x => truth v' >>= fun y => pure (some (.ofBool (connective op x y)))) w)
      fun r w' s' => Lands low f cs b ops w [.boolean] r.toList w' s' := by
  obtain ⟨x, rfl⟩ := hv.exists_bool
  obtain ⟨y, rfl⟩ := hv'.exists_bool
  rw [bind_eq_of_ok (truth_ofBool x w), bind_eq_of_ok (truth_ofBool y w)]
  obtain ⟨i, heff, hi⟩ := connective_follows (w := w) u.image u.hosts op x y
  have hstep : Comes u o 1 (.of low (.ofBool y :: .ofBool x :: ops) (f.to a) cs k w)
      (.of low ([.int i] ++ ops) (f.to (a + 1)) cs k w) :=
    h.stage.comes_effect hcode (by cases op <;> simp [Lowering.logicInstr]) heff
  obtain ⟨j, hj⟩ : ∃ j, Comes u o j (.of low ([.int i] ++ ops) (f.to (a + 1)) cs k w)
      (.of low (.ofBool (decide (i ≠ 0) == true) :: ops) (f.to b) cs k w) :=
    h.stage.truth true (decide (i ≠ 0)) htruth fun yes pos hb hpos => by
      simpa using h.stage.branchIfTrue hb hpos i
  rw [beq_true, hi] at hj
  exact h.truthValue (hstep.trans hj)

theorem Scene.negation (h : Scene u M fs m p Γ low f env w)
    (htruth : TruthCode m .branchIfTrue 0 a b) (hv : HasTy w.arrays v .boolean) :
    Simulates u o n (.of low (v :: ops) (f.to a) cs k w)
      ((truth v >>= fun x => pure (some (.ofBool !x))) w)
      fun r w' s' => Lands low f cs b ops w [.boolean] r.toList w' s' := by
  obtain ⟨x, rfl⟩ := hv.exists_bool
  rw [bind_eq_of_ok (truth_ofBool x w)]
  obtain ⟨j, hj⟩ : ∃ j, Comes u o j (.of low ([.ofBool x] ++ ops) (f.to a) cs k w)
      (.of low (.ofBool (x == false) :: ops) (f.to b) cs k w) :=
    h.stage.truth false x htruth fun yes pos hb hpos => h.stage.branchTruth hb hpos x
  rw [beq_false] at hj
  exact h.truthValue hj

theorem Scene.element (h : Scene u M fs m p Γ low f env w) {base t : Ty} {i : Instr}
    {ns : List Int64} (hel : ElementOk base ns.length t)
    (hi : Lowering.elementInstr base ns.length = .ok i) (hcode : m.code[a]? = some i)
    (hv : HasTy w.arrays v base)
    (hns : List.Forall₂ (HasTy w.arrays) (ns.map Value.int).reverse
      (List.replicate ns.length .integer)) :
    Simulates u o n (.of low ((ns.map Value.int).reverse ++ v :: ops) (f.to a) cs k w)
      ((elementOf v ns >>= fun r => pure (some r)) w) fun r w' s' =>
        Lands low f cs (a + 1) ops w (resultTys t) r.toList w' s' := by
  obtain ⟨hvalue, htakes⟩ := Lowering.element_takes u.image hel hi
  have hget : Simulates u o n (.of low (((ns.map Value.int).reverse ++ [v]) ++ ops) (f.to a) cs k w)
      (elementOf v ns w) fun r w' s' => Lands low f cs (a + 1) ops w [t] [r] w' s' :=
    h.instruction hcode htakes (List.rel_append hns (.cons hv .nil)) fun r hr =>
      element_effect u.image u.hosts hel hi hv hr
  rw [List.append_assoc] at hget
  rw [resultTys, if_pos hvalue]
  exact simulates_some hget

theorem Scene.newArray (h : Scene u M fs m p Γ low f env w) {e : Element} {ns : List Int64}
    (hcode : m.code[a]? = some (.newArray e ns.length))
    (hns : List.Forall₂ (HasTy w.arrays) (ns.map Value.int).reverse
      (List.replicate ns.length .integer)) :
    Simulates u o n (.of low ((ns.map Value.int).reverse ++ ops) (f.to a) cs k w)
      ((allocate e ns >>= fun r => pure (some r)) w) fun r w' s' =>
        Lands low f cs (a + 1) ops w [.array e ns.length] r.toList w' s' := by
  refine simulates_some (h.instruction hcode (.newArray e ns.length) hns fun r hr => ?_)
  rw [effect, if_pos (by simp)] at hr
  cases hr
  exact allocate_follows e ns

end

theorem Scene.function (h : Scene u M fs m p Γ low f env w) (hcall : CallsOk u o fs n call)
    {name : String} {arity : Nat} {targets : List Ty} {code : List Instr} {leaves : Bool}
    {g : FunctionDecl}
    (hg : CallsFunction u.image.hostRoutines fs name arity targets code leaves g)
    (hlen : arity = g.params.length) (hcode : CodeAt m a code) {vs : List Value}
    (hvs : List.Forall₂ (HasTy w.arrays) vs (g.params.map (·.ty))) :
    Simulates u o n (.of low (vs.reverse ++ ops) (f.to a) cs k w)
      ((match g.external with
        | some package => external u.hosts (routineOf package g) vs
        | none => call g vs) w)
      fun v w' s' => Lands low f cs (a + code.length) ops w (resultTys g.returnType) v.toList w'
        s' := by
  rcases hg.code with ⟨id, hid, hbody, rfl⟩ | ⟨package, j, hext, rfl, hj⟩
  · rw [hbody]
    obtain ⟨c, hc, hmf, _⟩ := Forall₂.getElem? h.site.image.methods hid
    rw [Array.getElem?_toList] at hc
    have hparams : vs.reverse.length = c.arity := by
      rw [List.length_reverse, hvs.length_eq, Method.arity, hmf.params]
    have harity : arity = vs.reverse.length := by
      rw [hparams, Method.arity, hmf.params, List.length_map, hlen]
    have hstep : Comes u o 1 (.of low (vs.reverse ++ ops) (f.to a) cs k w)
        (.of (low ++ ops.reverse) [] (calledFrame c w k (low ++ ops.reverse).length id
          vs.reverse.reverse) (f.to (a + 1) :: cs) (calledEmpties c w k) w) :=
      h.stage.comes (hcode 0 _ (by rw [harity]; rfl)) (by simp)
        (call_of (f := f.to (a + 1)) h.stage.base hc (hmf.body hbody) hparams)
    rw [List.reverse_reverse] at hstep
    exact hcall id g c hid hbody hc low ops f cs (a + 1) k w vs _ h.stage.base h.arrays
      (hmf.params ▸ hvs) hstep
  · rw [hext]
    refine h.instruction (hcode 0 _ rfl) (.callHost hj) (List.forall₂_reverse_iff.mpr hvs)
      fun r hr => ?_
    rw [effect, hj, List.reverse_reverse] at hr
    dsimp only at hr
    split at hr
    · exact external_follows u.hosts _ vs hr
    · cases hr

theorem Scene.builtin (h : Scene u M fs m p Γ low f env w) {name : String} {tys : List Ty}
    {code : List Instr} {t : Ty} (hb : Lowering.Builtin name tys code t) (hcode : CodeAt m a code)
    {vs : List Value} (hvs : List.Forall₂ (HasTy w.arrays) vs tys) :
    Simulates u o n (.of low (vs.reverse ++ ops) (f.to a) cs k w) (builtin name tys vs w)
      fun v w' s' => Lands low f cs (a + code.length) ops w (resultTys t) v.toList w' s' := by
  rcases Lowering.builtin_cases u.image hb with ⟨i, rfl, htakes⟩ | ⟨rfl, rfl, rfl, rfl⟩
  · exact h.instruction (hcode 0 _ rfl) htakes (List.forall₂_reverse_iff.mpr hvs) fun r hr =>
      builtin_follows hb hvs hr
  · obtain ⟨v, rfl, hv⟩ := Lowering.forall₂_singleton hvs
    obtain ⟨s, rfl⟩ := hv.exists_str
    exact ⟨0, _, .refl _, ⟨k, rfl⟩, h.arrays, .refl _, .cons hv .nil⟩

/-! ### Expressions -/

section

variable (u o M fs m p Γ low f cs env n call)

/-- The code of the expression follows its evaluation, wherever it stands. -/
abbrev ExprSimulates (e : Expr) : Prop :=
  ∀ {leaves : Bool} {a b k : Nat} {ops : List Value} {w : World},
    Scene u M fs m p Γ low f env w → ExprOk fs Γ e →
    ExprCode M m u.image.strings p.visible e leaves a b →
    Simulates u o n (.of low ops (f.to a) cs k w) (evalExpr fs u.hosts call env e w)
      fun v w' s' => Lands low f cs b ops w (resultTys e.ty) v.toList w' s'

/-- The code of the expressions follows their evaluation; the last value is on top. -/
abbrev ArgsSimulates (args : List Expr) : Prop :=
  ∀ {targets : List Ty} {a b k : Nat} {ops : List Value} {w : World},
    Scene u M fs m p Γ low f env w → ExprsOk fs Γ args →
    ArgsCode M m u.image.strings p.visible targets args a b →
    List.Forall₂ (fun e t => e.ty.isValue = true → Fits e.ty t) args targets →
    Simulates u o n (.of low ops (f.to a) cs k w) (evalAll fs u.hosts call env targets args w)
      fun vs w' s' => Lands low f cs b ops w targets.reverse vs.reverse w' s'

end

section

variable {l r x : Expr} {args : List Expr} {nt : Note}

theorem name_simulates {y : String} : ExprSimulates u o M fs m p Γ low f cs env n call (.name nt y) := by
  intro leaves a b k ops w h hok hc
  obtain ⟨_, rfl, y, hy, hcode⟩ := hc
  obtain ⟨v, hread, hvt, hcomes⟩ := h.load hok hy hcode o ops cs k
  rw [evalExpr, bind_eq_of_ok hread]
  refine ⟨1, _, hcomes, ⟨k, rfl⟩, h.arrays, .refl _, ?_⟩
  rw [show (Expr.name nt _).ty = nt.ty from rfl, resultTys, if_pos hvt.isValue]
  exact .cons hvt .nil

theorem arith_simulates {op : ArithOp} (hlhs : ExprSimulates u o M fs m p Γ low f cs env n call l)
    (hrhs : ExprSimulates u o M fs m p Γ low f cs env n call r) :
    ExprSimulates u o M fs m p Γ low f cs env n call (.arith nt op l r) := by
  intro leaves a b k ops w h hok hc
  obtain ⟨hlok, hrok, hres⟩ := hok
  obtain ⟨_, i, c, c', hi, ⟨cl, hl, hwl⟩, ⟨cr, hr, hwr⟩, hcode, rfl⟩ := hc
  have hvl := h.site.isValue hlok hl
  have hvr := h.site.isValue hrok hr
  have hres := hres.result hvl hvr
  obtain ⟨hfl, hfr, _⟩ := Lowering.arith_takes u.image hres hi
  exact h.operands hvl hvr hfl hfr hwl hwr (hlhs h hlok hl) (fun v k w' h' => hrhs h' hrok hr)
    fun v v' k w' h' hv hv' => h'.arithmetic hres hi hcode hv hv'

theorem compare_simulates {op : Comparison} (hlhs : ExprSimulates u o M fs m p Γ low f cs env n call l)
    (hrhs : ExprSimulates u o M fs m p Γ low f cs env n call r) :
    ExprSimulates u o M fs m p Γ low f cs env n call (.compare nt op l r) := by
  intro leaves a b k ops w h hok hc
  obtain ⟨hlok, hrok, hres⟩ := hok
  obtain ⟨_, ty, between, num, c, c', hp, ⟨cl, hl, hwl⟩, ⟨cr, hr, hwr⟩, hbt, htruth⟩ := hc
  have hvl := h.site.isValue hlok hl
  have hvr := h.site.isValue hrok hr
  have ht : (Expr.compare nt op l r).ty = .boolean :=
    hres.eq_boolean fun t => Comparison.eq_boolean_of_result?
  obtain ⟨hfl, hfr, hcmp⟩ := Lowering.comparison_planned (hres.result hvl hvr) hp
  rw [ht, evalExpr, comparedTy_of_plan hp]
  exact h.operands hvl hvr hfl hfr hwl hwr (hlhs h hlok hl) (fun v k w' h' => hrhs h' hrok hr)
    fun v v' k w' h' hv hv' => h'.comparison hcmp hbt htruth hv hv'

theorem logic_simulates {op : LogicOp} (hlhs : ExprSimulates u o M fs m p Γ low f cs env n call l)
    (hrhs : ExprSimulates u o M fs m p Γ low f cs env n call r) :
    ExprSimulates u o M fs m p Γ low f cs env n call (.logic nt op l r) := by
  intro leaves a b k ops w h hok hc
  obtain ⟨hlok, hrok, hres⟩ := hok
  obtain ⟨_, c, c', ⟨cl, hl, hwl⟩, ⟨cr, hr, hwr⟩, hcode, htruth⟩ := hc
  have hvl := h.site.isValue hlok hl
  have hvr := h.site.isValue hrok hr
  obtain ⟨hlt, hrt, ht⟩ := logic_cases (hres.result hvl hvr)
  rw [show (Expr.logic nt op l r).ty = .boolean from ht, evalExpr]
  exact h.operands hvl hvr (.inl hlt) (.inl hrt) hwl hwr (hlhs h hlok hl)
    (fun v k w' h' => hrhs h' hrok hr)
    fun v v' k w' h' hv hv' => h'.connective hcode htruth hv hv'

theorem not_simulates (hoperand : ExprSimulates u o M fs m p Γ low f cs env n call x) :
    ExprSimulates u o M fs m p Γ low f cs env n call (.not nt x) := by
  intro leaves a b k ops w h hok hc
  obtain ⟨hxok, hxt, ht⟩ := hok
  obtain ⟨_, c, ⟨cx, hx, hw⟩, htruth⟩ := hc
  have hv := h.site.isValue hxok hx
  have hxt : x.ty = .boolean := hxt.resolve_right (ne_undefined_of_isValue hv)
  rw [show (Expr.not nt x).ty = .boolean from ht, evalExpr]
  refine h.operand hv (.inl hxt) hw (hoperand h hxok hx) fun v w' s' hland => ?_
  obtain ⟨⟨k', rfl⟩, hleaves⟩ := hland
  obtain _ | ⟨hvt, _⟩ := hleaves.operands
  exact ((h.world hleaves).negation htruth hvt).from hleaves.keeps

theorem index_simulates {y : String} (hindices : ArgsSimulates u o M fs m p Γ low f cs env n call args) :
    ExprSimulates u o M fs m p Γ low f cs env n call (.index nt y args) := by
  intro leaves a b k ops w h hok hc
  obtain ⟨⟨base, hread, hel⟩, hisok, hint⟩ := hok
  obtain ⟨_, y, i, c, hy, hload, hargs, hi, hcode, rfl⟩ := hc
  obtain ⟨hty, _⟩ := h.site.read hread hy
  obtain ⟨v, hv, hvt, hcomes⟩ := h.load hread hy hload o ops cs k
  rw [evalExpr, bind_eq_of_ok hv]
  refine (hcomes.simulates ?_).mono (Nat.le_add_left n 1)
  refine (hindices h hisok hargs (index_fits hint)).bind fun vs w' s' hland => ?_
  obtain ⟨⟨k', rfl⟩, hleaves⟩ := hland
  obtain ⟨ns, rfl, hlen, hns⟩ := integers_of_leaves hleaves
  rw [bind_eq_of_ok (integers_map ns w')]
  rw [← hlen] at hel hi hns
  rw [hty] at hi
  exact ((h.world hleaves).element hel hi hcode (hvt.mono hleaves.keeps) hns).from hleaves.keeps

theorem call_simulates (hcall : CallsOk u o fs n call) {name : String}
    (harguments : ArgsSimulates u o M fs m p Γ low f cs env n call args) :
    ExprSimulates u o M fs m p Γ low f cs env n call (.call nt name args) := by
  intro leaves a b k ops w h hok hc
  obtain ⟨hargsok, hcallok⟩ := hok
  obtain ⟨targets, code, c, hplan, hargs, hcode, rfl⟩ := hc
  rcases call_cases h.site.image.declared h.site.params hcallok hplan with
    ⟨g, hg, ht, _, hlen, hfits⟩ | ⟨rfl, hnone, hbuiltin⟩
  · rw [show (Expr.call nt name args).ty = g.returnType from ht, evalExpr, hg.found]
    dsimp only
    rw [← hg.targets]
    refine (harguments h hargsok hargs hfits).bind fun vs w' s' hland => ?_
    obtain ⟨⟨k', rfl⟩, hleaves⟩ := hland
    have hops := hleaves.operands
    rw [List.forall₂_reverse_iff, hg.targets] at hops
    exact ((h.world hleaves).function hcall hg hlen hcode hops).from hleaves.keeps
  · rw [show (Expr.call nt name args).ty = nt.ty from rfl, evalExpr, hnone]
    dsimp only
    have hb := hbuiltin (h.site.args_isValue hargsok hargs (by simp))
    refine (harguments h hargsok hargs (own_fits args)).bind fun vs w' s' hland => ?_
    obtain ⟨⟨k', rfl⟩, hleaves⟩ := hland
    have hops := hleaves.operands
    rw [List.forall₂_reverse_iff] at hops
    exact ((h.world hleaves).builtin hb hcode hops).from hleaves.keeps

theorem newArray_simulates {e : Element} (hdims : ArgsSimulates u o M fs m p Γ low f cs env n call args) :
    ExprSimulates u o M fs m p Γ low f cs env n call (.newArray nt e args) := by
  intro leaves a b k ops w h hok hc
  obtain ⟨hdimsok, hint, _, ht⟩ := hok
  obtain ⟨_, c, hargs, _, hcode, rfl⟩ := hc
  rw [show (Expr.newArray nt e args).ty = .array e args.length from ht, evalExpr]
  refine (hdims h hdimsok hargs (index_fits hint)).bind fun vs w' s' hland => ?_
  obtain ⟨⟨k', rfl⟩, hleaves⟩ := hland
  obtain ⟨ns, rfl, hlen, hns⟩ := integers_of_leaves hleaves
  rw [bind_eq_of_ok (integers_map ns w')]
  rw [← hlen] at hcode hns ⊢
  exact ((h.world hleaves).newArray hcode hns).from hleaves.keeps

end

mutual

/-- The code of an expression follows its evaluation. -/
theorem expr_simulates (hcall : CallsOk u o fs n call) :
    ∀ {e : Expr}, ExprSimulates u o M fs m p Γ low f cs env n call e
  | .literal nt v => by
    intro h hok hc
    obtain ⟨_, rfl, i, hi, hcode⟩ := hc
    rw [show (Expr.literal nt v).ty = v.ty from hok]
    exact h.literal hi hcode
  | .name _ _ => name_simulates
  | .arith _ _ _ _ => arith_simulates (expr_simulates hcall) (expr_simulates hcall)
  | .compare _ _ _ _ => compare_simulates (expr_simulates hcall) (expr_simulates hcall)
  | .logic _ _ _ _ => logic_simulates (expr_simulates hcall) (expr_simulates hcall)
  | .not _ _ => not_simulates (expr_simulates hcall)
  | .index _ _ _ => index_simulates (args_simulates hcall)
  | .call _ _ _ => call_simulates hcall (args_simulates hcall)
  | .newArray _ _ _ => newArray_simulates (args_simulates hcall)

/-- The code of a list of expressions follows their evaluation; the last value is on top. -/
theorem args_simulates (hcall : CallsOk u o fs n call) :
    ∀ {args : List Expr}, ArgsSimulates u o M fs m p Γ low f cs env n call args
  | [] => by
    intro h _ hc hfit
    cases hfit
    obtain rfl : _ = _ := by simpa only [ArgsCode] using hc
    exact ⟨0, _, .refl _, ⟨_, rfl⟩, h.arrays, .refl _, .nil⟩
  | e :: es => by
    intro h hok hc hfit
    cases hfit with
    | @cons _ t _ ts hf hfits =>
      obtain ⟨c, ⟨ce, he, hw⟩, hes⟩ := hc
      have hv := h.site.isValue hok.1 he
      rw [evalAll]
      refine h.operand hv (hf hv) hw (expr_simulates hcall h hok.1 he) fun v w₁ s₁ hland => ?_
      obtain ⟨⟨k₁, rfl⟩, hleaves⟩ := hland
      refine (args_simulates hcall (h.world hleaves) hok.2 hes hfits).bind
        fun vs w₂ s₂ hland' => .pure ?_
      obtain ⟨⟨k₂, rfl⟩, hleaves'⟩ := hland'
      rw [List.reverse_cons, List.reverse_cons]
      refine ⟨⟨k₂, by rw [List.append_assoc]⟩, hleaves'.arrays,
        hleaves.keeps.trans hleaves'.keeps, ?_⟩
      exact List.rel_append hleaves'.operands (forall₂_hasTy_mono hleaves.operands hleaves'.keeps)

end

/-! ### Expressions in statements -/

theorem as_simulates (hcall : CallsOk u o fs n call) (h : Scene u M fs m p Γ low f env w) {e : Expr}
    {target : Ty} (hok : ExprOk fs Γ e) (hfit : e.ty.isValue = true → Fits e.ty target)
    (hc : AsCode M m u.image.strings p.visible e target a b) :
    Simulates u o n (.of low ops (f.to a) cs k w) (evalAs fs u.hosts call env target e w)
      fun v w' s' => Lands low f cs b ops w [target] [v] w' s' := by
  obtain ⟨c, he, hw⟩ := hc
  have hv := h.site.isValue hok he
  have hsim : Simulates u o n (.of low ops (f.to a) cs k w)
      ((evalExpr fs u.hosts call env e >>= fun r => valueAs target r >>= pure) w)
      fun v w' s' => Lands low f cs b ops w [target] [v] w' s' :=
    h.operand hv (hfit hv) hw (expr_simulates hcall h hok he) fun v w' s' hland => .pure hland
  simp only [bind_pure] at hsim
  exact hsim

theorem condition_simulates (hcall : CallsOk u o fs n call)
    (h : Scene u M fs m p Γ low f env w) {e : Expr} (hok : ConditionOk fs Γ e)
    (hc : AsCode M m u.image.strings p.visible e .boolean a b) :
    Simulates u o n (.of low ops (f.to a) cs k w) (evalCondition fs u.hosts call env e w)
      fun c w' s' => Lands low f cs b ops w [.boolean] [.ofBool c] w' s' := by
  have hfit : e.ty.isValue = true → Fits e.ty .boolean := fun hv =>
    .inl (hok.2.resolve_right (ne_undefined_of_isValue hv))
  refine (as_simulates hcall h hok.1 hfit hc).bind fun v w' s' hland => ?_
  obtain _ | ⟨hvt, _⟩ := hland.leaves.operands
  obtain ⟨c, rfl⟩ := hvt.exists_bool
  rw [truth_ofBool]
  exact ⟨0, s', .refl s', hland⟩

/-- The value of an expression is removed where it is not used. -/
theorem discard_simulates (hcall : CallsOk u o fs n call)
    (h : Scene u M fs m p Γ low f env w) {e : Expr} {leaves : Bool} {c : Nat} (hok : ExprOk fs Γ e)
    (hc : ExprCode M m u.image.strings p.visible e leaves a c) (hd : DiscardCode m leaves c b) :
    Simulates u o n (.of low ops (f.to a) cs k w) (evalExpr fs u.hosts call env e w)
      fun _ w' s' => Lands low f cs b ops w [] [] w' s' := by
  refine (expr_simulates hcall h hok hc).comes fun r w' s' hland => ?_
  obtain ⟨⟨k', rfl⟩, harr, hkeep, hops⟩ := hland
  have hlands : Lands low f cs b ops w [] [] w' (.of low ops (f.to b) cs k' w') :=
    ⟨⟨k', rfl⟩, harr, hkeep, .nil⟩
  rw [hc.leaves_eq h.site.image.declared h.site.valued hok] at hd
  unfold resultTys at hops
  unfold DiscardCode at hd
  cases hv : e.ty.isValue with
  | true =>
    rw [hv] at hd hops
    obtain ⟨hpop, rfl⟩ := hd
    obtain ⟨v, hr, _⟩ := Lowering.forall₂_singleton hops
    rw [show r.toList = [v] from hr]
    exact ⟨1, _, h.stage.pop hpop v, hlands⟩
  | false =>
    rw [hv] at hd hops
    obtain rfl := hd
    rw [show r.toList = [] from List.forall₂_nil_right_iff.mp hops]
    exact ⟨0, _, .refl _, hlands⟩

end

end Quill.Meaning
