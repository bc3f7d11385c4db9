import Quill.Proofs.Compiled
import Quill.Proofs.Machine.Typed

/-! # Runs of verified images

In an image of which every method is verified, a run keeps every argument, local variable, operand
and array element at a value of its type: `StateOk` is the invariant, `stateOk_advance` says that a
step keeps it, and that a step that ends the run does not end it in an internal fault.

A frame that waits for a call goes on once it has been given the result, so what is known of it is
the shape of its operands with the result on top. -/

namespace Quill.Machine

open Code Lowering

section

variable (p : Image) (as : Arrays)

/-- The variables and operands of a frame are of their types, and its code is safe from where it
stands once operands of the types `τ` have been pushed. -/
structure FrameOk (τ : List Ty) (m : Method) (f : Frame) (ops : List Value) : Prop where
  method : p.methods[f.method]? = some m
  args : List.Forall₂ (HasTy as) f.args.toList m.params
  locals : List.Forall₂ (fun v l => HasTy as v l.ty) f.locals.toList m.locals.toList
  safe : ∃ ρ A, Reaches p m (fun _ _ => False) f.pc ⟨τ ++ ρ, A⟩ ∧ List.Forall₂ (HasTy as) ops ρ

/-- The frames wait for a result of the type; `low` are their operands, the top last. -/
def Waits : Ty → List Value → List Frame → Prop
  | _, low, [] => low = []
  | t, low, f :: cs => ∃ m low' ops, low = low' ++ ops.reverse ∧ f.base = low'.length ∧
    FrameOk p as (resultTys t) m f ops ∧ Waits m.returnType low' cs

/-- Everything in the state is of its type. -/
def StateOk (s : State) : Prop :=
  ∃ low ops f cs n w m, s = .of low ops f cs n w ∧ f.base = low.length ∧ ArraysOk w.arrays ∧
    FrameOk p w.arrays [] m f ops ∧ Waits p w.arrays m.returnType low cs

end

section

variable {p : Image} {as as' : Arrays} {m : Method} {f : Frame} {ops : List Value}

theorem FrameOk.mono {τ : List Ty} (h : FrameOk p as τ m f ops) (hk : Keeps as as') :
    FrameOk p as' τ m f ops := by
  obtain ⟨ρ, A, hr, hops⟩ := h.safe
  exact ⟨h.method, forall₂_hasTy_mono h.args hk, h.locals.imp fun _ _ hv => hv.mono hk,
    ρ, A, hr, forall₂_hasTy_mono hops hk⟩

theorem Waits.mono {cs : List Frame} (hk : Keeps as as') :
    ∀ {t : Ty} {low : List Value}, Waits p as t low cs → Waits p as' t low cs := by
  induction cs with
  | nil => exact fun h => h
  | cons f cs ih =>
    rintro t low ⟨m, low', ops, hlow, hbase, hf, hw⟩
    exact ⟨m, low', ops, hlow, hbase, hf.mono hk, ih hw⟩

/-- The frame at another position that is safe, with other operands. -/
theorem FrameOk.to {τ : List Ty} (h : FrameOk p as τ m f ops) {pc : Nat} {ρ : List Ty}
    {A : Nat → Prop} (hr : Reaches p m (fun _ _ => False) pc ⟨ρ, A⟩) {ops' : List Value}
    (hops : List.Forall₂ (HasTy as) ops' ρ) : FrameOk p as [] m (f.to pc) ops' :=
  ⟨h.method, h.args, h.locals, ρ, A, hr, hops⟩

theorem forall₂_set {α β : Type} {R : α → β → Prop} {l : List α} {l' : List β}
    (h : List.Forall₂ R l l') {k : Nat} {a : α} {b : β} (hb : l'[k]? = some b) (hab : R a b) :
    k < l.length ∧ List.Forall₂ R (l.set k a) l' := by
  induction h generalizing k with
  | nil => cases hb
  | cons hr hrest ih =>
    cases k with
    | zero =>
      obtain rfl := Option.some.inj hb
      exact ⟨Nat.zero_lt_succ _, .cons hab hrest⟩
    | succ k =>
      obtain ⟨hlt, hset⟩ := ih hb
      exact ⟨Nat.succ_lt_succ hlt, .cons hr hset⟩

/-- The local variables of a new frame have initial values of their types. -/
theorem forall₂_initialLocals (as : Arrays) (ls : List Local)
    (hv : ∀ l ∈ ls, l.ty.isValue = true) :
    ∀ (heap : Heap) (done : Array Value) {ds : List Local},
      List.Forall₂ (fun v l => HasTy as v l.ty) done.toList ds →
      List.Forall₂ (fun v l => HasTy as v l.ty) (initialLocals heap done ls).1.toList
        (ds ++ ls) := by
  induction ls with
  | nil =>
    intro heap done ds h
    rwa [List.append_nil]
  | cons l ls ih =>
    intro heap done ds h
    rw [initialLocals, List.append_cons]
    refine ih (fun l hl => hv l (List.mem_cons_of_mem _ hl)) _ _ ?_
    rw [Array.toList_push]
    exact List.rel_append h (.cons (hasTy_initial heap (hv l (List.mem_cons_self ..))) .nil)

theorem calledFrame_ok {c : Method} (hc : MethodVerified p c) {id : Nat}
    (hid : p.methods[id]? = some c) {w : World} {args : List Value}
    (hargs : List.Forall₂ (HasTy w.arrays) args c.params) (n height : Nat) :
    FrameOk p w.arrays [] c (calledFrame c w n height id args) [] := by
  refine ⟨hid, hargs, ?_, [], _, hc.code, .nil⟩
  have hlocals := forall₂_initialLocals w.arrays c.locals.toList
    (fun l hl => hc.locals l (Array.mem_toList_iff.mp hl)) ⟨w.arrays, n⟩ #[] .nil
  exact hlocals

/-! ### Steps -/

variable {σ : Type} {u : Setup} {o : Observer σ}

/-- An effect on operands of fitting types keeps the state well typed. -/
theorem stateOk_takes (hh : HostsOk p u.hosts) {i : Instr} {α β ρ : List Ty} {A : Nat → Prop}
    (ht : Takes p i α β) {low : List Value} {cs : List Frame} {n : Nat} {w : World}
    (hbase : f.base = low.length) (has : ArraysOk w.arrays) (hf : FrameOk p w.arrays [] m f ops)
    (hwait : Waits p w.arrays m.returnType low cs)
    (hops : List.Forall₂ (HasTy w.arrays) ops (α ++ ρ))
    (hr : Reaches p m (fun _ _ => False) (f.pc + 1) ⟨β ++ ρ, A⟩) (steps : Nat) (seen : σ) :
    (Progress.ofStep steps seen (step p u.hosts m i (.of low ops (f.to (f.pc + 1)) cs n w))).Holds
      (fun r => StateOk p r.state) fun outcome _ => Sound (fun _ => True) outcome := by
  obtain ⟨vs, rest, rfl, hvs, hrest⟩ := forall₂_append_right hops
  obtain ⟨r, hr', hsound⟩ := effect_sound has hh ht hvs
  have hstep : Carries low rest (f.to (f.pc + 1)) cs n w
      (step p u.hosts m i (.of low (vs ++ rest) (f.to (f.pc + 1)) cs n w)) r :=
    step_carries (f := f.to (f.pc + 1)) hbase hr'
  cases r with
  | error e =>
    obtain ⟨ops', hstep⟩ := hstep
    rw [hstep]
    exact hsound
  | ok res =>
    obtain ⟨us, w'⟩ := res
    rw [show step _ _ _ _ _ = _ from hstep]
    have hus := List.rel_append hsound.operands (forall₂_hasTy_mono hrest hsound.keeps)
    exact ⟨low, us ++ rest, _, cs, n, w', m, rfl, hbase, hsound.arrays,
      (hf.mono hsound.keeps).to hr hus, hwait.mono hsound.keeps⟩

/-- A call leaves its frame waiting for the result below a new frame of the method called. -/
theorem stateOk_call (hv : Verified p) {id : Nat} {c : Method} {ρ : List Ty} {A : Nat → Prop}
    (hc : p.methods[id]? = some c) (hhost : c.host = none) {low : List Value} {cs : List Frame}
    {n : Nat} {w : World} (hbase : f.base = low.length) (has : ArraysOk w.arrays)
    (hf : FrameOk p w.arrays [] m f ops) (hwait : Waits p w.arrays m.returnType low cs)
    (hr : Reaches p m (fun _ _ => False) (f.pc + 1) ⟨resultTys c.returnType ++ ρ, A⟩)
    {vs rest : List Value} (hvs : List.Forall₂ (HasTy w.arrays) vs c.params.reverse)
    (hrest : List.Forall₂ (HasTy w.arrays) rest ρ) :
    ∃ s, step p u.hosts m (.call id c.params.length)
        (.of low (vs ++ rest) (f.to (f.pc + 1)) cs n w) = .ok () s ∧ StateOk p s := by
  have hargs : List.Forall₂ (HasTy w.arrays) vs.reverse c.params := by
    rw [← List.reverse_reverse c.params]
    exact List.forall₂_reverse_iff.mpr hvs
  have hlen : vs.length = c.params.length := by simpa using hargs.length_eq
  rw [← hlen, call_of (f := f.to (f.pc + 1)) hbase hc hhost hlen]
  have hframe : FrameOk p w.arrays (resultTys c.returnType) m (f.to (f.pc + 1)) rest :=
    ⟨hf.method, hf.args, hf.locals, ρ, A, hr, hrest⟩
  exact ⟨_, rfl, _, [], _, _, _, w, c, rfl, rfl, has,
    calledFrame_ok (hv id c hc hhost) hc hargs _ _, m, low, rest, rfl, hbase, hframe, hwait⟩

/-- A return ends the run, or gives its result to the frame that waits for it. -/
theorem stateOk_leave {low : List Value} {cs : List Frame} {n : Nat} {w : World}
    (hbase : f.base = low.length) (has : ArraysOk w.arrays)
    (hwait : Waits p w.arrays m.returnType low cs)
    (hops : List.Forall₂ (HasTy w.arrays) ops (resultTys m.returnType)) (steps : Nat) (seen : σ) :
    (Progress.ofLeave steps seen (leave m (.of low ops f cs n w))).Holds
      (fun r => StateOk p r.state) fun outcome _ => Sound (fun _ => True) outcome := by
  have hlen : ops.length = if m.returnsValue then 1 else 0 := by
    rw [hops.length_eq]
    unfold resultTys Method.returnsValue
    split <;> rfl
  cases cs with
  | nil =>
    rw [leave_last hbase hlen]
    trivial
  | cons g cs =>
    rw [leave_of hbase hlen]
    obtain ⟨c, low', ops', rfl, hbase', hg, hwait'⟩ := hwait
    obtain ⟨ρ, A, hr, hops'⟩ := hg.safe
    refine ⟨low', ops ++ ops', g, cs, n, w, c, ?_, hbase', has, ?_, hwait'⟩
    · unfold State.of
      rw [List.reverse_append, List.append_assoc]
    · exact ⟨hg.method, hg.args, hg.locals, _, A, hr, List.rel_append hops hops'⟩

/-- A step keeps the state well typed, and ends the run in no internal fault. -/
theorem stateOk_advance (hv : Verified u.image) (hh : HostsOk u.image u.hosts) {r : Run σ}
    (h : StateOk u.image r.state) :
    (advance u o r).Holds (fun r => StateOk u.image r.state)
      fun outcome _ => Sound (fun _ => True) outcome := by
  obtain ⟨s, steps, seen⟩ := r
  obtain ⟨low, ops, f, cs, n, w, m, rfl, hbase, has, hf, hwait⟩ := h
  obtain ⟨ρ, A, ⟨S, hle, hsafe⟩, hops⟩ := hf.safe
  obtain ⟨i, next, branch, hi, hgoes, hnext, hbranch⟩ :=
    covers_safe _ _ (hsafe.resolve_right id)
  have hstack : S.stack = ρ := hle.stack
  cases hlim : u.exceeded (steps + 1) with
  | some limit =>
    rw [advance_exceeded hf.method hi hlim]
    rfl
  | none =>
    have hadv : i ≠ .ret → advance u o ⟨.of low ops f cs n w, steps, seen⟩ = _ :=
      advance_step hf.method hi hlim
    have hnextBase : (f.to (f.pc + 1)).base = low.length := hbase
    cases hgoes with
    | takes ρ' A ht =>
      rw [hadv (by rintro rfl; cases ht)]
      rw [← hstack] at hops
      exact stateOk_takes hh ht hbase has hf hwait hops (hnext _ rfl) _ _
    | loadArg ρ' A ht =>
      obtain ⟨v, hv, hvt⟩ := Forall₂.getElem? hf.args ht
      rw [hadv (by simp), State.next_of, loadArg_of (by simpa using hv)]
      rw [← hstack] at hops
      exact ⟨low, _, _, cs, n, w, m, rfl, hbase, has, hf.to (hnext _ rfl) (.cons hvt hops), hwait⟩
    | storeArg ρ' A ht =>
      rw [← hstack] at hops
      cases hops with
      | @cons v _ ops _ hvt hops =>
        obtain ⟨hlt, hset⟩ := forall₂_set hf.args ht hvt
        rw [hadv (by simp), State.next_of, storeArg_of hnextBase hlt]
        have hto := hf.to (hnext _ rfl) hops
        refine ⟨low, _, _, cs, n, w, m, rfl, hbase, has, ⟨hf.method, ?_, hf.locals, hto.safe⟩, hwait⟩
        simpa using hset
    | loadLocal ρ' ht =>
      obtain ⟨v, hv, hvt⟩ := Forall₂.getElem? hf.locals (by simpa using ht)
      rw [hadv (by simp), State.next_of, loadLocal_of (by simpa using hv)]
      rw [← hstack] at hops
      exact ⟨low, _, _, cs, n, w, m, rfl, hbase, has, hf.to (hnext _ rfl) (.cons hvt hops), hwait⟩
    | storeLocal ρ' A ht =>
      rw [← hstack] at hops
      cases hops with
      | @cons v _ ops _ hvt hops =>
        obtain ⟨hlt, hset⟩ := forall₂_set hf.locals (by simpa using ht) hvt
        rw [hadv (by simp), State.next_of, storeLocal_of hnextBase hlt]
        have hto := hf.to (hnext _ rfl) hops
        refine ⟨low, _, _, cs, n, w, m, rfl, hbase, has, ⟨hf.method, hf.args, ?_, hto.safe⟩, hwait⟩
        simpa using hset
    | branchCmp ρ' A hpos ht ht' =>
      rw [← hstack] at hops
      obtain _ | ⟨hb, _ | ⟨ha, hops⟩⟩ := hops
      obtain ⟨truth, hholds⟩ := exists_holds _ ht' ht ha hb
      rw [hadv (by simp), State.next_of, branchCmp_of hnextBase hpos hholds]
      refine ⟨low, _, _, cs, n, w, m, rfl, ?_, has, ?_, hwait⟩
      · cases truth <;> exact hbase
      · cases truth with
        | true => exact hf.to (hbranch _ _ rfl) hops
        | false => exact hf.to (hnext _ rfl) hops
    | branchIfTrue ρ' A hpos ht =>
      rw [← hstack] at hops
      obtain _ | ⟨hv, hops⟩ := hops
      obtain ⟨k, rfl⟩ := hv.exists_int ht
      rw [hadv (by simp), State.next_of, branchIfTrue_of hnextBase hpos]
      refine ⟨low, _, _, cs, n, w, m, rfl, ?_, has, ?_, hwait⟩
      · split <;> exact hbase
      · split
        · exact hf.to (hbranch _ _ rfl) hops
        · exact hf.to (hnext _ rfl) hops
    | jump S hpos =>
      rw [hadv (by simp), State.next_of, step, jump_of hpos]
      rw [← hstack] at hops
      exact ⟨low, _, _, cs, n, w, m, rfl, hbase, has, hf.to (hbranch _ _ rfl) hops, hwait⟩
    | @call id c ρ' A hc hhost =>
      rw [← hstack] at hops
      obtain ⟨vs, rest, rfl, hvs, hrest⟩ := forall₂_append_right hops
      obtain ⟨s', hs, hok⟩ := stateOk_call (u := u) hv hc hhost hbase has hf hwait (hnext _ rfl)
        hvs hrest
      rw [hadv (by simp), State.next_of, hs]
      exact hok
    | ret A =>
      rw [← hstack] at hops
      rw [advance_ret hf.method hi hlim, State.next_of]
      exact stateOk_leave hnextBase has hwait hops _ _

end

/-! ### Runs of compiled programs -/

section

variable {σ : Type} {p : Program} {image : Image} {hosts : Hosts}

theorem Compiles.startOk (h : Compiles p image) (console : Console) :
    ∃ s, startEntry image .bare console = .ok s ∧ StateOk image s := by
  obtain ⟨id, m, _, hm, hhost, hparams, hstart⟩ := h.start console
  have hargs : List.Forall₂ (HasTy #[]) [] m.params := by
    rw [hparams]
    exact .nil
  refine ⟨_, hstart, _, _, _, _, _, _, m, rfl, rfl, ?_, ?_, rfl⟩
  · exact fun a ha => absurd ha (Array.not_mem_empty a)
  · exact calledFrame_ok (h.verified id m hm hhost) hm hargs 0 0

/-- Type soundness: whatever the console, the step limit and the observer are, as long as the host
keeps its declarations, no run of a compiled program ends in a type mismatch, a stack underflow or
imbalance, or an invalid program, and every state it comes to has values of their static types in
all its variables, operands and arrays. -/
theorem compiled_run_sound (h : Compiles p image) (hh : HostsOk image hosts) (limit : Option Nat)
    (o : Observer σ) (seen : σ) (console : Console) :
    (∀ fuel e r, runProgram ⟨image, hosts, limit⟩ o seen console fuel = some (.error e, r) →
      e.internal = false) ∧
    ∃ s, startEntry image .bare console = .ok s ∧
      ∀ k r, go ⟨image, hosts, limit⟩ o k ⟨s, 0, seen⟩ = .running r → StateOk image r.state := by
  obtain ⟨s, hs, hok⟩ := Compiles.startOk h console
  have hinv := go_invariant (u := ⟨image, hosts, limit⟩) (o := o)
    fun r hr => stateOk_advance h.verified hh hr
  refine ⟨fun fuel e r hrun => ?_, s, hs, fun k r hgo => ?_⟩
  · have hend := hinv fuel ⟨s, 0, seen⟩ hok
    unfold runProgram at hrun
    rw [hs] at hrun
    dsimp only at hrun
    split at hrun
    · next hgo =>
      rw [hgo] at hend
      cases hrun
      exact hend
    · cases hrun
  · have hend := hinv k ⟨s, 0, seen⟩ hok
    rw [hgo] at hend
    exact hend

theorem integerAction_ok (package name : String) (g : Int64 → Int64) :
    RoutineOk ⟨package, name, [.integer], .integer⟩ (integerAction g) := by
  intro args as has hargs
  obtain _ | ⟨hv, _ | _⟩ := hargs
  obtain ⟨n, rfl⟩ := hv.exists_int (.inl rfl)
  exact ⟨has, .refl as, .cons trivial .nil⟩

theorem nearImage_hostsOk : HostsOk nearImage Hosts.standard := by
  have hroutines : nearImage.hostRoutines = #[⟨"math", "abs", [.integer], .integer⟩] := by
    decide +kernel
  intro r hr action hfind
  rw [hroutines] at hr
  obtain rfl := List.mem_singleton.mp (Array.mem_toList_iff.mpr hr)
  obtain rfl : integerAction absInt = action := Option.some.inj hfind
  exact integerAction_ok "math" "abs" absInt

theorem nearImage_run_sound :
    (∀ fuel e r, runProgram ⟨nearImage, Hosts.standard, some 100⟩ LabelCounter.observer .zero
      (.ofLines []) fuel = some (.error e, r) → e.internal = false) ∧
    ∃ s, startEntry nearImage .bare (.ofLines []) = .ok s ∧
      ∀ k r, go ⟨nearImage, Hosts.standard, some 100⟩ LabelCounter.observer k ⟨s, 0, .zero⟩ =
        .running r → StateOk nearImage r.state :=
  compiled_run_sound nearProgram_compiled nearImage_hostsOk (some 100) LabelCounter.observer .zero
    (.ofLines [])

end

end Quill.Machine
