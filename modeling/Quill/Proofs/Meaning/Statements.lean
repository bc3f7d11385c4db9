import Quill.Proofs.Meaning.Expressions

/-! # The code of a statement follows its evaluation

`Finishes` says where the run stands once a statement has been evaluated: at the end of its code,
in a frame that holds the variables as they are then, or, if the statement has returned, at a
return with the result as the only operand.  A loop is followed round by round
(`loop_simulates`); since a round takes an instruction at least, a loop that has run out of fuel
has run for as many instructions. -/

namespace Quill.Meaning

open Code Machine
open Typing (after after_cons afterAll afterAll_cons Block ConditionOk Ctx le_tail_afterAll
  StmtOk StmtsOk)
open Lowering (Binding fits_of_assignableTo fits_of_returnOk Housed index_fits LabelAt Methods Point
  Site Slot SlotOk StmtCode StmtsCode Visible)

section

variable (u : Setup) (m : Method) (low : List Value) (cs : List Frame)

/-- The run stands before a return, with the result of a call in the world `w` as the only
operand. -/
def Returns (w : World) (v : Option Value) (w' : World) (s : State) : Prop :=
  Leaves w (resultTys m.returnType) (v.toList, w') ∧
    ∃ f a k, s = .of low v.toList (f.to a) cs k w' ∧ Stage u m low f ∧ m.code[a]? = some .ret

/-- Where the run stands once a statement has been evaluated in the world `w`: before the code that
follows it, or before a return.  A statement of which every path returns does not come to its
end. -/
def Finishes (q : Point) (Δ : Ctx) (returns : Bool) (w : World) : Flow → World → State → Prop
  | .next env, w', s => returns = false ∧ Keeps w.arrays w'.arrays ∧
    ∃ f k, s = .of low [] (f.to q.pos) cs k w' ∧ Live u m q.visible Δ low f env w'
  | .returned v, w', s => Returns u m low cs w v w' s

/-- Where the run stands after a round of a loop: at the head of the loop, or past it. -/
def Turns (head q : Point) (Γ Δ : Ctx) (returns : Bool) (w : World) : Round → World → State → Prop
  | .again env, w', s => Finishes u m low cs head Γ false w (.next env) w' s
  | .done flow, w', s => Finishes u m low cs q Δ returns w flow w' s

end

/-- The code of the statements of a block follows their evaluation, wherever it stands. -/
abbrev BodySimulates {σ : Type} (u : Setup) (o : Observer σ) (M : Methods) (fs : List FunctionDecl)
    (m : Method) (low : List Value) (cs : List Frame) (n : Nat) (call : Calls) (Γ : Ctx)
    (body : List Stmt) : Prop :=
  ∀ {p q : Point} {f : Frame} {env : Env} {k : Nat} {w : World},
    Scene u M fs m p ([] :: Γ) low f env w → StmtsOk fs m.returnType ([] :: Γ) body →
    StmtsCode M m u.image.strings m.returnType p body q →
    Simulates u o n (.of low [] (f.to p.pos) cs k w)
      (execAll fs u.hosts call n m.returnType env body w)
      (Finishes u m low cs q (afterAll ([] :: Γ) body) (anyReturns body) w)

section

variable {σ : Type} {u : Setup} {o : Observer σ} {M : Methods} {fs : List FunctionDecl} {m : Method}
  {p q : Point} {Γ Δ : Ctx} {low : List Value} {f : Frame} {cs : List Frame} {env : Env}
  {w w' : World} {n k a : Nat} {call : Calls} {returns : Bool}

/-! ### Ends of statements -/

theorem Finishes.from {w'' : World} {flow : Flow} {s : State}
    (h : Finishes u m low cs q Δ returns w' flow w'' s) (hk : Keeps w.arrays w'.arrays) :
    Finishes u m low cs q Δ returns w flow w'' s := by
  cases flow with
  | next env =>
    obtain ⟨hret, hkeep, hrest⟩ := h
    exact ⟨hret, hk.trans hkeep, hrest⟩
  | returned v =>
    obtain ⟨hleaves, hrest⟩ := h
    exact ⟨⟨hleaves.arrays, hk.trans hleaves.keeps, hleaves.operands⟩, hrest⟩

theorem Live.le (h : Live u m q.visible Δ low f env w) (hle : Ctx.Le Γ Δ) :
    Live u m q.visible Γ low f env w := { h with env := h.env.le hle }

/-- Instructions that only lead to another position, after those of a statement. -/
theorem Finishes.leads {flow : Flow} {s : State} {Δ' : Ctx} {returns' : Bool} {pos slots : Nat}
    (h : Finishes u m low cs q Δ returns w flow w' s) (hret : returns = false → returns' = false)
    (hle : Ctx.Le Δ' Δ)
    (hcode : ∀ {f k w}, Stage u m low f →
      ∃ j, Comes u o j (.of low [] (f.to q.pos) cs k w) (.of low [] (f.to pos) cs k w)) :
    ∃ j s', Comes u o j s s' ∧
      Finishes u m low cs ⟨pos, q.visible, slots⟩ Δ' returns' w flow w' s' := by
  cases flow with
  | next env =>
    obtain ⟨hr, hkeep, f, k, rfl, hlive⟩ := h
    obtain ⟨j, hj⟩ := hcode hlive.stage
    exact ⟨j, _, hj, hret hr, hkeep, f, k, rfl, hlive.le hle⟩
  | returned v => exact ⟨0, s, .refl s, h⟩

theorem Scene.leaveBlock {body : List Stmt} {start stop : Point} {s : State} {x : Eval Flow}
    {w₀ : World} (h : Scene u M fs m p Γ low f env w)
    (hc : StmtsCode M m u.image.strings m.returnType start body stop)
    (hvis : start.visible = p.visible)
    (hx : Simulates u o n s (x w₀)
      (Finishes u m low cs stop (afterAll ([] :: Γ) body) returns w)) :
    Simulates u o n s ((do return (← x).leaveBlock env) w₀)
      (Finishes u m low cs ⟨stop.pos, p.visible, stop.slots⟩ (afterAll ([] :: Γ) body).tail returns
        w) := by
  refine hx.bind fun flow w' s' hfin => .pure ?_
  cases flow with
  | returned v => exact hfin
  | next env' =>
    obtain ⟨hret, hkeep, f', k', rfl, hlive⟩ := hfin
    obtain ⟨pre, hpre⟩ := hc.visible
    obtain ⟨b', Δ, heq, hle⟩ := afterAll_cons [] Γ body
    have hlen : Δ.flatten.length = env.length :=
      hle.flatten.length_eq.symm.trans h.env.length_eq
    have henv := hlive.env
    rw [heq] at henv ⊢
    refine ⟨hret, hkeep, f', k', rfl, hlive.stage, hlive.sized, ?_, henv.leaveBlock hlen,
      hlive.arrays⟩
    exact hlive.holds.leaveBlock (hpre.trans (by rw [hvis])) h.holds.length_eq

/-! ### Loops -/

/-- A loop whose head is a marker. -/
theorem loop_simulates {round : Env → Eval Round} {l : Nat}
    (hlabel : m.code[p.pos]? = some (.label l))
    (hround : ∀ {f env k w}, Live u m p.visible Γ low f env w →
      Simulates u o n (.of low [] (f.to (p.pos + 1)) cs k w) (round env w)
        (Turns u m low cs p q Γ Δ returns w)) :
    ∀ j ≤ n, ∀ {f env k w}, Live u m p.visible Γ low f env w →
      Simulates u o j (.of low [] (f.to p.pos) cs k w) (loop round j env w)
        (Finishes u m low cs q Δ returns w) := by
  intro j
  induction j with
  | zero => exact fun _ f env k w _ steps seen => ⟨_, rfl⟩
  | succ j ih =>
    intro hj f env k w hlive
    rw [loop, Nat.add_comm j 1]
    refine (hlive.stage.label hlabel).simulates ?_
    refine ((hround hlive).mono (Nat.le_of_succ_le hj)).bind fun r w' s' hturn => ?_
    cases r with
    | done flow => exact .pure hturn
    | again env' =>
      obtain ⟨_, hkeep, f', k', rfl, hlive'⟩ := hturn
      exact (ih (Nat.le_of_succ_le hj) hlive').imp fun _ _ _ hfin => hfin.from hkeep

/-! ### Stores -/

theorem Stage.store (h : Stage u m low f) (hf : Sized m f) {y : Binding} {slots : Nat}
    (hy : SlotOk m slots y) (hi : m.code[a]? = some y.slot.store) (v : Value) :
    Comes u o 1 (.of low [v] (f.to a) cs k w)
      (.of low [] ((storeAt f v y.slot).to (a + 1)) cs k w) := by
  have hlt := hf.lt_size hy
  cases hs : y.slot with
  | arg j =>
    rw [hs] at hi hlt
    exact h.comes hi (by simp [Slot.store]) (storeArg_of (f := f.to (a + 1)) h.base hlt v)
  | «local» j =>
    rw [hs] at hi hlt
    exact h.comes hi (by simp [Slot.store]) (storeLocal_of (f := f.to (a + 1)) h.base hlt v)

theorem Stage.stored (h : Stage u m low f) (v : Value) (slot : Slot) :
    Stage u m low (storeAt f v slot) := by
  cases slot with
  | arg j => exact ⟨h.limit, h.method, h.base⟩
  | «local» j => exact ⟨h.limit, h.method, h.base⟩

/-- The value on top of the indices and the array becomes the element there. -/
theorem Scene.setElement (h : Scene u M fs m p Γ low f env w) {e : Element} {ns : List Int64}
    {v v' : Value}
    (hcode : m.code[a]? = some (if ns.length = 1 then .storeElem else .arraySet ns.length))
    (hv' : HasTy w.arrays v' e.toTy) (hv : HasTy w.arrays v (.array e ns.length))
    (hns : List.Forall₂ (HasTy w.arrays) (ns.map Value.int).reverse
      (List.replicate ns.length .integer)) :
    Simulates u o n (.of low (v' :: ((ns.map Value.int).reverse ++ [v])) (f.to a) cs k w)
      (setElement v ns v' w) fun _ w' s' => Lands low f cs (a + 1) [] w [] [] w' s' := by
  have htakes : Takes u.image (if ns.length = 1 then .storeElem else .arraySet ns.length)
      (e.toTy :: (List.replicate ns.length .integer ++ [.array e ns.length])) [] := by
    split
    · next hone =>
      rw [hone]
      exact .storeElem e
    · exact .arraySet e ns.length
  have hset : Simulates u o n
      (.of low ((v' :: ((ns.map Value.int).reverse ++ [v])) ++ []) (f.to a) cs k w)
      (Meaning.setElement v ns v' w) fun _ w' s' => Lands low f cs (a + 1) [] w [] [] w' s' :=
    h.instruction hcode htakes (.cons hv' (List.rel_append hns (.cons hv .nil))) fun r hr =>
      setElement_effect u.image u.hosts hv hr
  rw [List.append_nil] at hset
  exact hset

/-! ### Statements without statements in them -/

variable {b : Block}

theorem declare_simulates (hcall : CallsOk u o fs n call) {x : String} {ty : Ty}
    {init : Option Expr} {span : Span} (h : Scene u M fs m p (b :: Γ) low f env w)
    (hok : StmtOk fs m.returnType (b :: Γ) (.decl span x ty init))
    (hc : StmtCode M m u.image.strings m.returnType p (.decl span x ty init) q) :
    Simulates u o n (.of low [] (f.to p.pos) cs k w)
      (exec fs u.hosts call n m.returnType env (.decl span x ty init) w)
      (Finishes u m low cs q (after (b :: Γ) (.decl span x ty init)) false w) := by
  obtain ⟨hty, hfresh, hinit⟩ := hok
  have hnone : b.lookup x = none := by simpa [Ctx.isFresh] using hfresh
  cases init with
  | none =>
    obtain ⟨_, rfl⟩ := hc
    have henv : EnvOk w.arrays (after (b :: Γ) (.decl span x ty none)) ((x, ⟨ty, none⟩) :: env) :=
      h.env.declare hnone none fun _ hu => absurd hu (by simp)
    exact ⟨0, _, .refl _, rfl, .refl _, f, k, rfl, h.stage, h.sized, h.holds.declare_none x _, henv,
      h.arrays⟩
  | some e =>
    obtain ⟨heok, hassign⟩ := hinit e rfl
    obtain ⟨c, he, hl, hcode, rfl⟩ := hc
    have hslot : SlotOk m (p.slots + 1) ⟨.local p.slots, ty⟩ := ⟨Nat.lt_succ_self _, x, hl⟩
    rw [exec]
    refine (as_simulates hcall h heok (fits_of_assignableTo hty hassign) he).bind fun v w' s' hland => ?_
    obtain ⟨⟨k', rfl⟩, hleaves⟩ := hland
    obtain _ | ⟨hvt, _⟩ := hleaves.operands
    have henv : EnvOk w'.arrays (after (b :: Γ) (.decl span x ty (some e)))
        ((x, ⟨ty, some v⟩) :: env) := by
      refine (h.env.mono hleaves.keeps).declare hnone (some v) fun v' hv' => ?_
      obtain rfl := Option.some.inj hv'
      exact hvt
    refine ⟨1, _, h.stage.store h.sized hslot hcode v, rfl, hleaves.keeps, _, k', rfl,
      h.stage.stored v _, h.sized.store v _, ?_, henv, hleaves.arrays⟩
    exact h.holds.declare h.sized hslot (slot_fresh h.site.housed) v

theorem assign_simulates (hcall : CallsOk u o fs n call) {x : String} {value : Expr}
    {span target : Span} (h : Scene u M fs m p (b :: Γ) low f env w)
    (hok : StmtOk fs m.returnType (b :: Γ) (.assign span x target value))
    (hc : StmtCode M m u.image.strings m.returnType p (.assign span x target value) q) :
    Simulates u o n (.of low [] (f.to p.pos) cs k w)
      (exec fs u.hosts call n m.returnType env (.assign span x target value) w)
      (Finishes u m low cs q (Ctx.assign x (b :: Γ)) false w) := by
  obtain ⟨hvok, var, hvar, hassign⟩ := hok
  obtain ⟨y, c, hy, hval, hcode, rfl⟩ := hc
  obtain ⟨var', hvar', hty, _⟩ := h.site.agrees.find? hy
  rw [hvar] at hvar'
  obtain rfl := Option.some.inj hvar'
  obtain ⟨cell, hcell, hcty, _⟩ := h.holds.lookup hy
  have hslot := h.site.housed.lookup hy
  have hvalue := h.site.valued.find? hvar
  rw [← hty] at hassign hvalue
  rw [exec, hcell, required, pure_bind, ← hcty]
  refine (as_simulates hcall h hvok (fits_of_assignableTo hvalue hassign) hval).bind
    fun v w' s' hland => ?_
  obtain ⟨⟨k', rfl⟩, hleaves⟩ := hland
  obtain _ | ⟨hvt, _⟩ := hleaves.operands
  refine ⟨1, _, h.stage.store h.sized hslot hcode v, rfl, hleaves.keeps, _, k', rfl,
    h.stage.stored v _, h.sized.store v _, ?_, ?_, hleaves.arrays⟩
  · exact h.holds.assign h.sized h.site.housed h.apart hy v
  · exact (h.env.mono hleaves.keeps).assign hvar (hty ▸ hvt)

theorem ret_simulates (hcall : CallsOk u o fs n call) {value : Option Expr} {span : Span}
    (h : Scene u M fs m p (b :: Γ) low f env w)
    (hok : StmtOk fs m.returnType (b :: Γ) (.ret span value))
    (hc : StmtCode M m u.image.strings m.returnType p (.ret span value) q) :
    Simulates u o n (.of low [] (f.to p.pos) cs k w)
      (exec fs u.hosts call n m.returnType env (.ret span value) w)
      (Finishes u m low cs q Δ true w) := by
  cases value with
  | none =>
    obtain ⟨hi, rfl⟩ := hc
    have hv : m.returnType = .void := hok
    refine ⟨0, _, .refl _, ⟨h.arrays, .refl _, ?_⟩, f, _, k, rfl, h.stage, hi⟩
    rw [hv]
    exact .nil
  | some e =>
    obtain ⟨heok, hro⟩ := hok
    unfold StmtCode at hc
    rw [exec]
    split at hc
    · next hval =>
      obtain ⟨c, he, hi, rfl⟩ := hc
      rw [if_pos hval]
      refine (as_simulates hcall h heok (fits_of_returnOk hval hro) he).bind
        fun v w' s' hland => .pure ?_
      obtain ⟨⟨k', rfl⟩, hleaves⟩ := hland
      have hresult : resultTys m.returnType = [m.returnType] := if_pos hval
      exact ⟨hresult ▸ hleaves, f, c, k', rfl, h.stage, hi⟩
    · next hval =>
      obtain ⟨leaves, c, c', he, hd, hi, rfl⟩ := hc
      rw [if_neg hval]
      refine (discard_simulates hcall h heok he hd).bind fun _ w' s' hland => .pure ?_
      obtain ⟨⟨k', rfl⟩, hleaves⟩ := hland
      have hresult : resultTys m.returnType = [] := if_neg hval
      exact ⟨hresult ▸ hleaves, f, c', k', rfl, h.stage, hi⟩

theorem assignElement_simulates (hcall : CallsOk u o fs n call) {x : String} {is : List Expr}
    {value : Expr} {span target : Span} (h : Scene u M fs m p (b :: Γ) low f env w)
    (hok : StmtOk fs m.returnType (b :: Γ) (.assignElement span x is target value))
    (hc : StmtCode M m u.image.strings m.returnType p (.assignElement span x is target value) q) :
    Simulates u o n (.of low [] (f.to p.pos) cs k w)
      (exec fs u.hosts call n m.returnType env (.assignElement span x is target value) w)
      (Finishes u m low cs q (b :: Γ) false w) := by
  obtain ⟨hvok, hisok, hint, element, hread, hassign⟩ := hok
  obtain ⟨y, element', c, c', hy, hyt, hload, hargs, hval, hcode, rfl⟩ := hc
  obtain ⟨hty, _⟩ := h.site.read hread hy
  have hel : element' = element := by
    rw [hyt] at hty
    exact (Ty.array.inj hty).1
  subst hel
  have hfit : value.ty.isValue = true → Lowering.Fits value.ty element'.toTy :=
    fits_of_assignableTo (Typing.isValue_toTy element') hassign
  obtain ⟨v, hv, hvt, hcomes⟩ := h.load hread hy hload o [] cs k
  obtain ⟨cell, hcell, hcty, _⟩ := h.holds.lookup hy
  have helement : elementTy env x = pure element'.toTy := by
    rw [elementTy, hcell, Option.map_some, ← hcty, hyt]
  rw [exec, bind_eq_of_ok hv, helement]
  refine (hcomes.simulates ?_).mono (Nat.le_add_left n 1)
  refine (args_simulates hcall h hisok hargs (index_fits hint)).bind fun vs w₁ s₁ hland₁ => ?_
  obtain ⟨⟨k₁, rfl⟩, hleaves₁⟩ := hland₁
  have h₁ := h.world hleaves₁
  obtain ⟨ns, rfl, hlen, hns⟩ := integers_of_leaves hleaves₁
  rw [pure_bind]
  refine (as_simulates hcall h₁ hvok hfit hval).bind fun v' w₂ s₂ hland₂ => ?_
  obtain ⟨⟨k₂, rfl⟩, hleaves₂⟩ := hland₂
  have h₂ := h₁.world hleaves₂
  obtain _ | ⟨hvt', _⟩ := hleaves₂.operands
  have hkeep := hleaves₁.keeps.trans hleaves₂.keeps
  have hvt₂ := hvt.mono hkeep
  rw [bind_eq_of_ok (integers_map ns w₂)]
  rw [← hlen] at hcode hns hvt₂
  refine (h₂.setElement hcode hvt' hvt₂ (forall₂_hasTy_mono hns hleaves₂.keeps)).bind
    fun _ w₃ s₃ hland₃ => .pure ?_
  obtain ⟨⟨k₃, rfl⟩, hleaves₃⟩ := hland₃
  exact ⟨rfl, hkeep.trans hleaves₃.keeps, f, k₃, rfl, (h₂.world hleaves₃).toLive⟩

/-! ### Statements -/

theorem Scene.block (h : Scene u M fs m p Γ low f env w) (hvis : q.visible = p.visible)
    (hslots : p.slots ≤ q.slots) : Scene u M fs m q ([] :: Γ) low f env w where
  stage := h.stage
  sized := h.sized
  holds := hvis ▸ h.holds
  env := h.env
  arrays := h.arrays
  site := (h.site.at hvis hslots).block
  apart := hvis ▸ h.apart
  hosts := h.hosts

theorem Scene.branch (h : Scene u M fs m p Γ low f env w) (hcall : CallsOk u o fs n call)
    {cond : Expr} {c yes pos : Nat} (hok : ConditionOk fs Γ cond)
    (hc : Lowering.AsCode M m u.image.strings p.visible cond .boolean a c)
    (hi : m.code[c]? = some (.branchIfTrue yes)) (hpos : m.position? yes = some pos) :
    Simulates u o n (.of low [] (f.to a) cs k w) (evalCondition fs u.hosts call env cond w)
      fun t w' s => Keeps w.arrays w'.arrays ∧ Scene u M fs m p Γ low f env w' ∧
        ∃ k', s = .of low [] (f.to (if t then pos else c + 1)) cs k' w' := by
  refine (condition_simulates hcall h hok hc).comes fun t w' s hland => ?_
  obtain ⟨⟨k', rfl⟩, hleaves⟩ := hland
  exact ⟨1, _, h.stage.branchTruth hi hpos t, hleaves.keeps, h.world hleaves, k', rfl⟩

section

variable {b : Block} {span : Span} {cond : Expr} {body other : List Stmt}

theorem ifThen_simulates (hcall : CallsOk u o fs n call)
    (h : Scene u M fs m p (b :: Γ) low f env w)
    (hbodies : BodySimulates u o M fs m low cs n call (b :: Γ) body)
    (hok : StmtOk fs m.returnType (b :: Γ) (.ifThen span cond body))
    (hc : StmtCode M m u.image.strings m.returnType p (.ifThen span cond body) q) :
    Simulates u o n (.of low [] (f.to p.pos) cs k w)
      (exec fs u.hosts call n m.returnType env (.ifThen span cond body) w)
      (Finishes u m low cs q (b :: Γ) false w) := by
  obtain ⟨yes, stop, c, e, hcond, hbranch, hjump, hyes, hbody, hstop, rfl⟩ := hc
  rw [exec]
  refine (h.branch hcall hok.1 hcond hbranch hyes.2).bind fun t w' s hland => ?_
  obtain ⟨hkeep, h', k', rfl⟩ := hland
  cases t with
  | false =>
    have hend : Comes u o 2 (.of low [] (f.to (c + 1)) cs k' w')
        (.of low [] (f.to (e.pos + 1)) cs k' w') :=
      (h.stage.jump hjump hstop.2).trans (h.stage.label hstop.1)
    exact ⟨2, _, hend, rfl, hkeep, f, k', rfl, h'.toLive⟩
  | true =>
    have hstart : Comes u o 1 (.of low [] (f.to (c + 2)) cs k' w')
        (.of low [] (f.to (c + 3)) cs k' w') := h.stage.label hyes.1
    have hin := h'.block (q := { p with pos := c + 3 }) rfl (Nat.le_refl _)
    refine (hstart.simulates ?_).mono (Nat.le_add_left n 1)
    refine (h'.leaveBlock hbody rfl (hbodies hin hok.2 hbody)).comes fun flow w'' s hfin => ?_
    exact (hfin.from hkeep).leads (fun _ => rfl) (le_tail_afterAll _ body)
      fun hs => ⟨1, hs.label hstop.1⟩

theorem ifElse_simulates (hcall : CallsOk u o fs n call)
    (h : Scene u M fs m p (b :: Γ) low f env w)
    (hbodies : BodySimulates u o M fs m low cs n call (b :: Γ) body)
    (hothers : BodySimulates u o M fs m low cs n call (b :: Γ) other)
    (hok : StmtOk fs m.returnType (b :: Γ) (.ifElse span cond body other))
    (hc : StmtCode M m u.image.strings m.returnType p (.ifElse span cond body other) q) :
    Simulates u o n (.of low [] (f.to p.pos) cs k w)
      (exec fs u.hosts call n m.returnType env (.ifElse span cond body other) w)
      (Finishes u m low cs q (after (b :: Γ) (.ifElse span cond body other))
        (anyReturns body && anyReturns other) w) := by
  obtain ⟨yes, stop, c, e, e', hcond, hbranch, hother, hjump, hyes, hbody, hstop, rfl⟩ := hc
  obtain ⟨_, hleb, hleo⟩ := Ctx.le_both (le_tail_afterAll (b :: Γ) body)
    (le_tail_afterAll (b :: Γ) other)
  rw [exec]
  refine (h.branch hcall hok.1 hcond hbranch hyes.2).bind fun t w' s hland => ?_
  obtain ⟨hkeep, h', k', rfl⟩ := hland
  cases t with
  | false =>
    have hin := h'.block (q := { p with pos := c + 1 }) rfl (Nat.le_refl _)
    refine (h'.leaveBlock hother rfl (hothers hin hok.2.2 hother)).comes fun flow w'' s hfin => ?_
    refine (hfin.from hkeep).leads (fun hret => ?_) hleo fun hs =>
      ⟨2, (hs.jump hjump hstop.2).trans (hs.label hstop.1)⟩
    rw [hret, Bool.and_false]
  | true =>
    have hstart : Comes u o 1 (.of low [] (f.to (e.pos + 1)) cs k' w')
        (.of low [] (f.to (e.pos + 2)) cs k' w') := h.stage.label hyes.1
    have hin := h'.block (q := ⟨e.pos + 2, p.visible, e.slots⟩) rfl (hother.newSlots hok.2.2).1
    refine (hstart.simulates ?_).mono (Nat.le_add_left n 1)
    refine (h'.leaveBlock hbody rfl (hbodies hin hok.2.1 hbody)).comes fun flow w'' s hfin => ?_
    refine (hfin.from hkeep).leads (fun hret => ?_) hleb fun hs => ⟨1, hs.label hstop.1⟩
    rw [hret, Bool.false_and]

theorem while_simulates (hcall : CallsOk u o fs n call)
    (h : Scene u M fs m p (b :: Γ) low f env w)
    (hbodies : BodySimulates u o M fs m low cs n call (b :: Γ) body)
    (hok : StmtOk fs m.returnType (b :: Γ) (.while span cond body))
    (hc : StmtCode M m u.image.strings m.returnType p (.while span cond body) q) :
    Simulates u o n (.of low [] (f.to p.pos) cs k w)
      (exec fs u.hosts call n m.returnType env (.while span cond body) w)
      (Finishes u m low cs q (b :: Γ) false w) := by
  obtain ⟨test, yes, stop, c, e, htest, hcond, hbranch, hjump, hyes, hbody, hback, hstop, rfl⟩ :=
    hc
  rw [exec]
  refine loop_simulates htest.1 (fun {f env k w} hlive => ?_) n (Nat.le_refl n) h.toLive
  have h : Scene u M fs m p (b :: Γ) low f env w := { h with toLive := hlive }
  refine (h.branch hcall hok.1 hcond hbranch hyes.2).bind fun t w' s hland => ?_
  obtain ⟨hkeep, h', k', rfl⟩ := hland
  cases t with
  | false =>
    have hend : Comes u o 2 (.of low [] (f.to (c + 1)) cs k' w')
        (.of low [] (f.to (e.pos + 2)) cs k' w') :=
      (h.stage.jump hjump hstop.2).trans (h.stage.label hstop.1)
    exact ⟨2, _, hend, rfl, hkeep, f, k', rfl, h'.toLive⟩
  | true =>
    have hstart : Comes u o 1 (.of low [] (f.to (c + 2)) cs k' w')
        (.of low [] (f.to (c + 3)) cs k' w') := h.stage.label hyes.1
    have hin := h'.block (q := { p with pos := c + 3 }) rfl (Nat.le_refl _)
    refine (hstart.simulates ?_).mono (Nat.le_add_left n 1)
    refine (h'.leaveBlock hbody rfl (hbodies hin hok.2 hbody)).bind fun flow w'' s hfin => ?_
    have hturn : ∃ j s', Comes u o j s s' ∧
        Finishes u m low cs p (b :: Γ) false w flow w'' s' :=
      (hfin.from hkeep).leads (fun _ => rfl) (le_tail_afterAll _ body)
        fun hs => ⟨1, hs.jump hback htest.2⟩
    cases flow with
    | next env' => exact hturn
    | returned v => exact hturn

theorem doWhile_simulates (hcall : CallsOk u o fs n call)
    (h : Scene u M fs m p (b :: Γ) low f env w)
    (hbodies : BodySimulates u o M fs m low cs n call (b :: Γ) body)
    (hok : StmtOk fs m.returnType (b :: Γ) (.doWhile span body cond))
    (hc : StmtCode M m u.image.strings m.returnType p (.doWhile span body cond) q) :
    Simulates u o n (.of low [] (f.to p.pos) cs k w)
      (exec fs u.hosts call n m.returnType env (.doWhile span body cond) w)
      (Finishes u m low cs q (afterAll ([] :: b :: Γ) body).tail (anyReturns body) w) := by
  obtain ⟨again, test, stop, e, c, hagain, hbody, htest, hcond, hbranch, hstop, rfl⟩ := hc
  rw [exec]
  refine loop_simulates hagain.1 (fun {f env k w} hlive => ?_) n (Nat.le_refl n) h.toLive
  have h : Scene u M fs m p (b :: Γ) low f env w := { h with toLive := hlive }
  have hin := h.block (q := { p with pos := p.pos + 1 }) rfl (Nat.le_refl _)
  have hle := le_tail_afterAll (b :: Γ) body
  refine (h.leaveBlock hbody rfl (hbodies hin hok.1 hbody)).bind fun flow w' s hfin => ?_
  cases flow with
  | returned v => exact .pure hfin
  | next env' =>
    obtain ⟨hret, hkeep, f', k', rfl, hlive'⟩ := hfin
    have h' : Scene u M fs m p (afterAll ([] :: b :: Γ) body).tail low f' env' w' :=
      ⟨hlive', h.site.le hle, h.apart, h.hosts⟩
    have hstart : Comes u o 1 (.of low [] (f'.to e.pos) cs k' w')
        (.of low [] (f'.to (e.pos + 1)) cs k' w') := h'.stage.label htest
    refine (hstart.simulates ?_).mono (Nat.le_add_left n 1)
    refine (h'.branch hcall hok.2 hcond hbranch hagain.2).bind fun t w'' s hland => ?_
    obtain ⟨hkeep', h'', k'', rfl⟩ := hland
    have hkeeps := hkeep.trans hkeep'
    cases t with
    | true => exact .pure ⟨rfl, hkeeps, f', k'', rfl, h''.toLive.le hle⟩
    | false => exact ⟨1, _, h''.stage.label hstop, hret, hkeeps, f', k'', rfl, h''.toLive⟩

end

mutual

/-- The code of a statement follows its evaluation. -/
theorem stmt_simulates (hcall : CallsOk u o fs n call) {b : Block} {Γ : Ctx} {p q : Point}
    {f : Frame} {env : Env} {k : Nat} {w : World} (h : Scene u M fs m p (b :: Γ) low f env w) :
    ∀ {s : Stmt}, StmtOk fs m.returnType (b :: Γ) s →
      StmtCode M m u.image.strings m.returnType p s q →
      Simulates u o n (.of low [] (f.to p.pos) cs k w)
        (exec fs u.hosts call n m.returnType env s w)
        (Finishes u m low cs q (after (b :: Γ) s) s.returns w)
  | .expr _ e, hok, hc => by
    obtain ⟨leaves, c, c', he, hd, rfl⟩ := hc
    rw [exec]
    refine (discard_simulates hcall h hok he hd).bind fun _ w' s' hland => .pure ?_
    obtain ⟨⟨k', rfl⟩, hleaves⟩ := hland
    exact ⟨rfl, hleaves.keeps, f, k', rfl, (h.world hleaves).toLive⟩
  | .decl _ x ty init, hok, hc => declare_simulates hcall h hok hc
  | .assign _ x _ value, hok, hc => assign_simulates hcall h hok hc
  | .assignElement _ x is _ value, hok, hc => assignElement_simulates hcall h hok hc
  | .ret _ value, hok, hc => ret_simulates hcall h hok hc
  | .ifThen _ cond body, hok, hc =>
    ifThen_simulates hcall h (fun hin => stmts_simulates hcall hin) hok hc
  | .ifElse _ cond body other, hok, hc =>
    ifElse_simulates hcall h (fun hin => stmts_simulates hcall hin)
      (fun hin => stmts_simulates hcall hin) hok hc
  | .while _ cond body, hok, hc =>
    while_simulates hcall h (fun hin => stmts_simulates hcall hin) hok hc
  | .doWhile _ body cond, hok, hc =>
    doWhile_simulates hcall h (fun hin => stmts_simulates hcall hin) hok hc
  | .block _ body, hok, hc => by
    obtain ⟨e, hbody, rfl⟩ := hc
    rw [exec]
    exact h.leaveBlock hbody rfl
      (stmts_simulates hcall (h.block rfl (Nat.le_refl _)) hok hbody)

/-- The code of a list of statements follows their evaluation. -/
theorem stmts_simulates (hcall : CallsOk u o fs n call) {b : Block} {Γ : Ctx} {p q : Point}
    {f : Frame} {env : Env} {k : Nat} {w : World} (h : Scene u M fs m p (b :: Γ) low f env w) :
    ∀ {ss : List Stmt}, StmtsOk fs m.returnType (b :: Γ) ss →
      StmtsCode M m u.image.strings m.returnType p ss q →
      Simulates u o n (.of low [] (f.to p.pos) cs k w)
        (execAll fs u.hosts call n m.returnType env ss w)
        (Finishes u m low cs q (afterAll (b :: Γ) ss) (anyReturns ss) w)
  | [], _, hc => by
    rw [show q = p from hc]
    exact ⟨0, _, .refl _, rfl, .refl _, f, k, rfl, h.toLive⟩
  | s :: ss, hok, hc => by
    obtain ⟨e, hs, hss⟩ := hc
    rw [execAll]
    refine (stmt_simulates hcall h hok.1 hs).bind fun flow w' s' hfin => ?_
    cases flow with
    | returned v => exact .pure hfin
    | next env' =>
      obtain ⟨hret, hkeep, f', k', rfl, hlive⟩ := hfin
      have hsite := h.site.after hok.1 hs
      have hoks := hok.2
      obtain ⟨b', Γ', heq, _⟩ := after_cons b Γ s
      rw [anyReturns, hret, Bool.false_or, afterAll]
      rw [heq] at hlive hsite hoks ⊢
      have h' : Scene u M fs m e (b' :: Γ') low f' env' w' :=
        ⟨hlive, hsite, apart_after hs h.site.housed h.apart, h.hosts⟩
      exact (stmts_simulates hcall h' hoks hss).imp fun _ _ _ hfin => hfin.from hkeep

end

end

end Quill.Meaning
