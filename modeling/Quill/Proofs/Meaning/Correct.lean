import Mathlib.Data.List.Nodup
import Quill.Proofs.Machine.Soundness
import Quill.Proofs.Meaning.Statements

/-! # Compiled programs do what their trees mean

A call starts with its arguments in the slots of its parameters, so the code of a body follows its
evaluation, and with it calls that are nested one deeper (`callAt_callsOk`).  From this the run of
a compiled program ends just if the evaluation of its tree does, with the same outcome and in the
same world (`compiled_run_correct`). -/

namespace Quill.Meaning

open Code Machine
open Typing (checkFresh findFunction? paramBlock ProgramOk)
open Lowering (bindParams FunctionCode Forall₂.getElem? ImageOf MethodOf Methods Slot Visible)

/-! ### Parameters -/

section

variable {f : Frame} {as : Arrays}

theorem bindArgs_cons (p : Param) (ps : List Param) (v : Value) (vs : List Value) :
    bindArgs (p :: ps) (v :: vs) = bindArgs ps vs ++ [(p.name, ⟨p.ty, some v⟩)] := by
  simp [bindArgs]

/-- The arguments of a call are in the slots of the parameters. -/
theorem holds_bindParams {ps : List Param} :
    ∀ (before : List Value) {args : List Value} {visible : Visible} {env : Env},
      args.length = ps.length → f.args = (before ++ args).toArray → Holds f visible env →
      Holds f (bindParams visible before.length ps) (bindArgs ps args ++ env) := by
  induction ps with
  | nil =>
    intro before args visible env _ _ h
    exact h
  | cons p ps ih =>
    intro before args visible env hlen hargs h
    cases args with
    | nil => cases hlen
    | cons v vs =>
      have hslot : slotValue? f (.arg before.length) = some v := by
        rw [slotValue?, hargs]
        simp
      have hfirst : Holds f ((p.name, ⟨.arg before.length, p.ty⟩) :: visible)
          ((p.name, ⟨p.ty, some v⟩) :: env) := by
        refine .cons ⟨rfl, rfl, fun v' hv' => ?_⟩ h
        obtain rfl : v = v' := Option.some.inj hv'
        exact hslot
      have hargs' : f.args = ((before ++ [v]) ++ vs).toArray := by
        rw [hargs, List.append_assoc]
        rfl
      have hrest := ih (before ++ [v]) (Nat.succ.inj hlen) hargs' hfirst
      rw [List.length_append, List.length_singleton] at hrest
      rw [bindArgs_cons, List.append_assoc]
      exact hrest

theorem envOk_bindArgs {ps : List Param} {args : List Value}
    (h : List.Forall₂ (HasTy as) args (ps.map (·.ty))) :
    EnvOk as [paramBlock ps] (bindArgs ps args) := by
  rw [EnvOk, List.flatten_singleton, paramBlock, bindArgs, List.forall₂_reverse_iff]
  rw [List.forall₂_map_right_iff] at h
  induction h with
  | nil => exact .nil
  | cons hv _ ih =>
    refine .cons ⟨rfl, rfl, fun _ => rfl, fun v' hv' => ?_⟩ ih
    obtain rfl := Option.some.inj hv'
    exact hv

theorem slots_bindParams (ps : List Param) : ∀ (visible : Visible) (slot : Nat),
    (bindParams visible slot ps).map (·.2.slot) =
      ((List.range' slot ps.length).map Slot.arg).reverse ++ visible.map (·.2.slot) := by
  induction ps with
  | nil => exact fun _ _ => rfl
  | cons p ps ih =>
    intro visible slot
    rw [bindParams, ih, List.length_cons, List.range'_succ]
    simp

theorem apart_bindParams (ps : List Param) : Apart (bindParams [] 0 ps) := by
  rw [Apart, slots_bindParams, List.map_nil, List.append_nil, List.nodup_reverse]
  exact List.Nodup.map (fun _ _ h => Slot.arg.inj h) (List.nodup_range' ..)

end

/-! ### Calls -/

section

variable {σ : Type} {u : Setup} {o : Observer σ} {m : Method} {low ops : List Value} {f : Frame}
  {cs : List Frame} {w w' : World} {s : State} {v : Option Value}

theorem Returns.length (h : Returns u m low cs w v w' s) :
    v.toList.length = if m.returnsValue then 1 else 0 := by
  rw [h.1.operands.length_eq, resultTys, Method.returnsValue]
  split <;> rfl

/-- A return goes on in the caller, with the result on top of its operands. -/
theorem Returns.comes (h : Returns u m (low ++ ops.reverse) (f :: cs) w v w' s) :
    ∃ k, Comes u o 1 s (.of low (v.toList ++ ops) f cs k w') := by
  have hlen := h.length
  obtain ⟨_, g, a, k, rfl, hstage, hret⟩ := h
  refine ⟨k, fun steps seen => ?_⟩
  have hadv : advance u o ⟨.of (low ++ ops.reverse) v.toList (g.to a) (f :: cs) k w', steps, seen⟩ =
      _ := advance_ret hstage.method hret (hstage.exceeded _)
  rw [State.next_of, leave_of (f := (g.to a).to ((g.to a).pc + 1)) hstage.base hlen f] at hadv
  refine ⟨steps + 1, o.see seen m a .ret, ?_⟩
  rw [go, hadv]
  simp [go, Progress.ofLeave, State.of]

theorem Returns.ends (h : Returns u m [] [] w v w' s) : Ends u o s (.ok v) w' := by
  have hlen := h.length
  obtain ⟨_, g, a, k, rfl, hstage, hret⟩ := h
  intro steps seen
  have hadv : advance u o ⟨.of [] v.toList (g.to a) [] k w', steps, seen⟩ = _ :=
    advance_ret hstage.method hret (hstage.exceeded _)
  rw [State.next_of, leave_last (f := (g.to a).to ((g.to a).pc + 1)) hstage.base hlen] at hadv
  refine ⟨1, ⟨.of [] [] ((g.to a).to (a + 1)) [] k w', steps + 1, o.see seen m a .ret⟩, ?_, rfl⟩
  rw [go, hadv]
  cases v <;> rfl

end

/-- A setup for a well-typed program: its image, a host that keeps its declarations, and no step
limit. -/
structure Loaded (u : Setup) (M : Methods) (fs : List FunctionDecl) : Prop where
  image : ImageOf u.image M fs
  program : ProgramOk fs
  hosts : HostsOk u.image u.hosts
  limit : u.limit = none

section

variable {σ : Type} {u : Setup} {o : Observer σ} {M : Methods} {fs : List FunctionDecl} {m : Method}
  {low : List Value} {cs : List Frame} {w : World} {n k id : Nat} {call : Calls} {g : FunctionDecl}
  {args : List Value}

theorem Loaded.method (h : Loaded u M fs) (hg : fs[id]? = some g) (hext : g.external = none)
    (hm : u.image.methods[id]? = some m) :
    MethodOf u.image.hostRoutines m g ∧ FunctionCode M u.image.strings m g := by
  obtain ⟨m', hm', hmf, hcode⟩ := Forall₂.getElem? h.image.methods hg
  rw [Array.getElem?_toList, hm] at hm'
  obtain rfl := Option.some.inj hm'
  refine ⟨hmf, hcode ?_⟩
  rw [FunctionDecl.isExternal, hext]
  rfl

/-- What a call starts with: its arguments are the variables of the body. -/
theorem Loaded.scene (h : Loaded u M fs) (hg : fs[id]? = some g) (hext : g.external = none)
    (hm : u.image.methods[id]? = some m) (harr : ArraysOk w.arrays)
    (hargs : List.Forall₂ (HasTy w.arrays) args m.params) :
    Scene u M fs m ⟨0, bindParams [] 0 g.params, 0⟩ [paramBlock g.params] low
      (calledFrame m w k low.length id args) (bindArgs g.params args) w := by
  obtain ⟨hmf, _⟩ := h.method hg hext hm
  have hverified := h.image.verified h.program hm (hmf.body hext)
  have hframe := calledFrame_ok hverified hm hargs k low.length
  rw [hmf.params] at hargs
  have hlen : args.length = g.params.length := by
    rw [hargs.length_eq, List.length_map]
  have hholds : Holds (calledFrame m w k low.length id args) (bindParams [] 0 g.params)
      (bindArgs g.params args ++ []) := holds_bindParams [] hlen rfl .nil
  rw [List.append_nil] at hholds
  exact {
    stage := ⟨h.limit, hm, rfl⟩
    sized := ⟨hframe.args.length_eq, hframe.locals.length_eq⟩
    holds := hholds
    env := envOk_bindArgs hargs
    arrays := harr
    site := Lowering.bodySite h.image h.program (List.mem_of_getElem? hg) hmf
    apart := apart_bindParams g.params
    hosts := h.hosts }

/-- The code of a body follows its evaluation and comes to a return. -/
theorem Loaded.body (h : Loaded u M fs) (hg : fs[id]? = some g) (hext : g.external = none)
    (hm : u.image.methods[id]? = some m) (harr : ArraysOk w.arrays)
    (hargs : List.Forall₂ (HasTy w.arrays) args m.params) (hcall : CallsOk u o fs n call) :
    Simulates u o n (.of low [] (calledFrame m w k low.length id args) cs (calledEmpties m w k) w)
      (runBody fs u.hosts call n g args w) (Returns u m low cs w) := by
  have hscene : Scene u M fs m ⟨0, bindParams [] 0 g.params, 0⟩ [paramBlock g.params] low
      (calledFrame m w k low.length id args) (bindArgs g.params args) w :=
    h.scene hg hext hm harr hargs
  obtain ⟨hmf, e, hstmts, hnop, hret, _⟩ := h.method hg hext hm
  have hbody := (h.program.functions g (List.mem_of_getElem? hg)).2
  obtain ⟨hstmtsok, hreturns⟩ := hbody (by rw [FunctionDecl.isExternal, hext]; rfl)
  unfold runBody
  rw [← hmf.returnType] at hstmts hstmtsok hreturns ⊢
  refine (stmts_simulates hcall hscene hstmtsok hstmts).bind fun flow w' s hfin => ?_
  cases flow with
  | returned v => exact .pure hfin
  | next env =>
    obtain ⟨hopen, hkeep, f, k', rfl, hlive⟩ := hfin
    have hvoid : m.returnType = .void := hreturns.resolve_right (by rw [hopen]; decide)
    have hstep : Comes u o 1 (.of low ([] ++ []) (f.to e.pos) cs k' w')
        (.of low ([] ++ []) (f.to (e.pos + 1)) cs k' w') :=
      hlive.stage.comes_effect hnop (by simp) rfl
    have hresult : resultTys m.returnType = [] := by
      rw [hvoid]
      rfl
    exact ⟨1, _, hstep, ⟨hlive.arrays, hkeep, hresult ▸ .nil⟩, f, e.pos + 1, k', rfl, hlive.stage,
      hret⟩

/-- Calls follow their evaluation, however deep they are nested. -/
theorem Loaded.calls (h : Loaded u M fs) (n : Nat) : CallsOk u o fs n (callAt fs u.hosts n) := by
  induction n with
  | zero =>
    intro id g c _ _ _ low ops f cs b k w args s _ _ _ _ steps seen
    exact ⟨_, rfl⟩
  | succ n ih =>
    intro id g c hg hext hc low ops f cs b k w args s hbase harr hargs hcomes
    obtain ⟨hmf, _⟩ := h.method hg hext hc
    rw [callAt, Nat.add_comm n 1]
    refine (hcomes.simulates (h.body hg hext hc harr hargs ih)).comes fun v w' s' hreturns => ?_
    obtain ⟨k', hback⟩ := hreturns.comes (o := o)
    exact ⟨1, _, hback, ⟨k', rfl⟩, hmf.returnType ▸ hreturns.1⟩

end

/-! ### Programs -/

section

variable {σ : Type} {u : Setup} {o : Observer σ} {p : Program} {image : Image} {hosts : Hosts}

/-- An evaluation that has ended, followed by a run to its end. -/
theorem Simulates.ends {n : Nat} {s : State} {x : EStateM.Result Stop World (Option Value)}
    {outcome : Outcome} {w : World}
    (h : Simulates u o n s x fun v w s' => Ends u o s' (.ok v) w)
    (hx : outcomeOf x = some (outcome, w)) : Ends u o s outcome w := by
  cases x with
  | ok v w' =>
    cases hx
    obtain ⟨k, s', hk, hend⟩ := h
    exact hk.ends hend
  | error e w' =>
    cases e with
    | fault e =>
      cases hx
      exact h
    | outOfFuel => cases hx
    | stuck => cases hx

theorem Simulates.lasts {n : Nat} {s : State} {x : EStateM.Result Stop World (Option Value)}
    {Q : Option Value → World → State → Prop} (h : Simulates u o n s x Q)
    (hx : outcomeOf x = none) : Lasts u o n s := by
  cases x with
  | ok v w' => cases hx
  | error e w' =>
    cases e with
    | fault e => cases hx
    | outOfFuel => exact h
    | stuck => exact h.elim

theorem Compiles.loaded (h : Compiles p image) (hh : HostsOk image hosts) :
    ∃ M, Loaded ⟨image, hosts, none⟩ M (checkFresh p).1.functions := by
  obtain ⟨hok, M, him⟩ := h.imageOf
  exact ⟨M, him, hok, hh, rfl⟩

/-- The run of a compiled program, from its first state, does what the call of `main` does. -/
theorem main_simulates (h : Compiles p image) (hh : HostsOk image hosts) (o : Observer σ)
    (console : Console) :
    ∃ main s, findFunction? (checkFresh p).1.functions "main" 0 = some main ∧
      startEntry image .bare console = .ok s ∧
      ∀ n, Simulates ⟨image, hosts, none⟩ o n s
        (callAt (checkFresh p).1.functions hosts (n + 1) main [] ⟨#[], console⟩)
        fun v w s' => Ends ⟨image, hosts, none⟩ o s' (.ok v) w := by
  obtain ⟨M, hl⟩ := Compiles.loaded h hh
  obtain ⟨id, m, hid, hm, hhost, hparams, hstart⟩ := h.start console
  obtain ⟨main, hmain, hfound⟩ := hl.image.entry_function hid
  have hext : main.external = none := by
    obtain ⟨m', hm', hmf, _⟩ := Forall₂.getElem? hl.image.methods hmain
    rw [Array.getElem?_toList, hm] at hm'
    obtain rfl := Option.some.inj hm'
    exact hmf.external hhost
  refine ⟨main, _, hfound, hstart, fun n => ?_⟩
  have harr : ArraysOk (⟨#[], console⟩ : World).arrays := fun a ha =>
    absurd ha (Array.not_mem_empty a)
  have hargs : List.Forall₂ (HasTy (⟨#[], console⟩ : World).arrays) [] m.params := by
    rw [hparams]
    exact .nil
  have hbody : Simulates ⟨image, hosts, none⟩ o n
      (.of [] [] (calledFrame m ⟨#[], console⟩ 0 0 id []) [] (calledEmpties m ⟨#[], console⟩ 0)
        ⟨#[], console⟩)
      (callAt (checkFresh p).1.functions hosts (n + 1) main [] ⟨#[], console⟩)
      (Returns ⟨image, hosts, none⟩ m [] [] ⟨#[], console⟩) :=
    hl.body hmain hext hm harr hargs (hl.calls n)
  exact hbody.imp fun v w s' hreturns => hreturns.ends

/-- Compiler correctness: the evaluation of the checked tree of a program ends with an outcome and
a world (the console and all arrays) just if the run of its image does, on every console and with
every host that keeps its declarations. -/
theorem compiled_run_correct (h : Compiles p image) (hh : HostsOk image hosts) (o : Observer σ)
    (seen : σ) (console : Console) (outcome : Outcome) (w : World) :
    (∃ fuel, evalProgram (checkFresh p).1.functions hosts console fuel = some (outcome, w)) ↔
      ∃ fuel r, runProgram ⟨image, hosts, none⟩ o seen console fuel = some (outcome, r) ∧
        r.state.world = w := by
  obtain ⟨main, s, hmain, hstart, hsim⟩ := main_simulates h hh o console
  have heval : ∀ fuel, evalProgram (checkFresh p).1.functions hosts console fuel =
      outcomeOf (callAt (checkFresh p).1.functions hosts fuel main [] ⟨#[], console⟩) := by
    intro fuel
    rw [evalProgram, hmain]
  have hrun : ∀ fuel r, runProgram ⟨image, hosts, none⟩ o seen console fuel = some (outcome, r) ↔
      go ⟨image, hosts, none⟩ o fuel ⟨s, 0, seen⟩ = .ended outcome r := by
    intro fuel r
    rw [runProgram, hstart]
    dsimp only
    cases go ⟨image, hosts, none⟩ o fuel ⟨s, 0, seen⟩ with
    | ended outcome' r' => simp
    | running r' => simp
  constructor
  · rintro ⟨fuel, hfuel⟩
    rw [heval] at hfuel
    cases fuel with
    | zero => cases hfuel
    | succ n =>
      obtain ⟨k, r, hgo, hw⟩ := (hsim n).ends hfuel 0 seen
      exact ⟨k, r, (hrun k r).mpr hgo, hw⟩
  · rintro ⟨k, r, hk, hw⟩
    rw [hrun] at hk
    refine ⟨k + 1, ?_⟩
    rw [heval]
    -- An evaluation with this fuel has ended: otherwise the run would go on for `k` instructions.
    cases hx : outcomeOf (callAt (checkFresh p).1.functions hosts (k + 1) main [] ⟨#[], console⟩) with
    | none =>
      obtain ⟨r', hgo⟩ := (hsim k).lasts hx 0 seen
      rw [hk] at hgo
      cases hgo
    | some res =>
      obtain ⟨outcome', w'⟩ := res
      obtain ⟨k', r', hgo, hw'⟩ := (hsim k).ends hx 0 seen
      obtain ⟨rfl, rfl⟩ := go_ended_unique hk hgo
      rw [← hw, hw']

theorem nearImage_run_correct :
    (∃ fuel, evalProgram (checkFresh nearProgram).1.functions Hosts.standard (.ofLines []) fuel =
        some (.ok (some (.int 1)), ⟨#[], .ofLines []⟩)) ↔
      ∃ fuel r, runProgram ⟨nearImage, Hosts.standard, none⟩ LabelCounter.observer .zero
        (.ofLines []) fuel = some (.ok (some (.int 1)), r) ∧ r.state.world = ⟨#[], .ofLines []⟩ :=
  compiled_run_correct nearProgram_compiled nearImage_hostsOk LabelCounter.observer .zero
    (.ofLines []) _ _

end

end Quill.Meaning
