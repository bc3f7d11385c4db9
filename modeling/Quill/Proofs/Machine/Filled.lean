import Quill.Proofs.Compiled
import Quill.Proofs.Machine.Veil

/-! # Initial contents of local variables

`runFilled` is a run in which the local variables of every new frame start with values from
elsewhere, of any kind.  A compiled program assigns each of its local variables before it reads it,
so such a run cannot be told apart from the run of the machine: it ends after as many instructions,
in the same way, with the same arrays and the same console.

The two runs go in lockstep.  Their states differ in the local variables of the frames only, and of
those only in slots that the code has not assigned where the frame stands (`Twins`). -/

namespace Quill.Machine

open Code Lowering

/-- The state with other values in the local variables of its frame. -/
def State.refill (s : State) (fill : Nat → Value) : State :=
  { s with frame := { s.frame with locals := s.frame.locals.mapIdx fun k _ => fill k } }

section

variable {σ : Type} (u : Setup) (o : Observer σ) (fill : Nat → Nat → Value)

/-- The next instruction of a run.  If it pushes a frame, the local variables of that frame get the
values that `fill` gives for this moment. -/
def advanceFilled (r : Run σ) : Progress σ :=
  match advance u o r with
  | .ended outcome r' => .ended outcome r'
  | .running r' =>
    .running (if r.state.callers.length < r'.state.callers.length then
      { r' with state := r'.state.refill (fill r'.steps) } else r')

/-- At most so many instructions of such a run. -/
def goFilled : Nat → Run σ → Progress σ
  | 0, r => .running r
  | k + 1, r =>
    match advanceFilled u o fill r with
    | .ended outcome r => .ended outcome r
    | .running r => goFilled k r

/-- At most so many instructions of a program of which the local variables start with the values
that `fill` gives; `none` if it has not ended by then. -/
def runFilled (seen : σ) (console : Console) (fuel : Nat) : Option (Outcome × Run σ) :=
  match startEntry u.image .bare console with
  | .error e => some (.error e, { state := { (default : State) with console }, steps := 0, seen })
  | .ok state =>
    match goFilled u o fill fuel { state := state.refill (fill 0), steps := 0, seen } with
    | .ended outcome r => some (outcome, r)
    | .running _ => none

end

/-- What can be seen of a run that has ended: how it ended, the number of its instructions, what
the observer has seen, the arrays and the console. -/
def ending {σ : Type} (x : Outcome × Run σ) : Outcome × Nat × σ × Arrays × Console :=
  (x.1, x.2.steps, x.2.seen, x.2.state.heap.arrays, x.2.state.console)

/-! ### Twins -/

section

variable (p : Image)

/-- The local variables `locals` have the values of those of the frame, as far as the frame can
come to read them before it assigns them. -/
def Agree (f : Frame) (locals : Array Value) : Prop :=
  ∃ m S, p.methods[f.method]? = some m ∧ Reaches p m (fun _ _ => False) f.pc S ∧
    locals.size = f.locals.size ∧ ∀ k, S.assigned k → locals[k]? = f.locals[k]?

/-- The frames differ in local variables that do not matter. -/
def FrameTwins (f g : Frame) : Prop := ∃ locals, g = { f with locals } ∧ Agree p f locals

/-- The states differ in local variables that do not matter. -/
def Twins (s t : State) : Prop :=
  ∃ locals callers, t = s.veil ⟨s.frame.method, none, locals, callers⟩ ∧
    Agree p s.frame locals ∧ List.Forall₂ (FrameTwins p) s.callers callers

end

/-- Two runs that go on from twins, or that end alike. -/
def Paired {σ : Type} (p : Image) : Progress σ → Progress σ → Prop
  | .running r, .running r' => Twins p r.state r'.state ∧ r.steps = r'.steps ∧ r.seen = r'.seen
  | .ended outcome r, .ended outcome' r' => ending (outcome, r) = ending (outcome', r')
  | _, _ => False

/-! ### Steps -/

section

variable {σ : Type} {u : Setup} {o : Observer σ} {fill : Nat → Nat → Value}

theorem advanceFilled_ended {r r' : Run σ} {outcome : Outcome}
    (h : advance u o r = .ended outcome r') : advanceFilled u o fill r = .ended outcome r' := by
  unfold advanceFilled
  rw [h]

theorem advanceFilled_same {r r' : Run σ} (h : advance u o r = .running r')
    (hlen : r'.state.callers.length ≤ r.state.callers.length) :
    advanceFilled u o fill r = .running r' := by
  unfold advanceFilled
  rw [h]
  dsimp only
  rw [if_neg (by omega)]

theorem advanceFilled_new {r r' : Run σ} (h : advance u o r = .running r')
    (hlen : r.state.callers.length < r'.state.callers.length) :
    advanceFilled u o fill r = .running { r' with state := r'.state.refill (fill r'.steps) } := by
  unfold advanceFilled
  rw [h]
  dsimp only
  rw [if_pos hlen]

variable {s : State} {steps : Nat} {seen : σ} {m : Method} {i : Instr} {locals : Array Value}
  {callers : List Frame}

/-- What is known of both runs where they come to an instruction: the second has other values in
the slots that are not assigned, and its waiting frames are twins of those of the first. -/
structure Meets (u : Setup) (s : State) (steps : Nat) (m : Method) (i : Instr)
    (locals : Array Value) (callers : List Frame) (A : Nat → Prop) : Prop where
  method : u.image.methods[s.frame.method]? = some m
  instr : m.code[s.frame.pc]? = some i
  limit : u.exceeded (steps + 1) = none
  size : locals.size = s.frame.locals.size
  assigned : ∀ k, A k → locals[k]? = s.frame.locals[k]?
  callers : List.Forall₂ (FrameTwins u.image) s.callers callers

variable {A : Nat → Prop} {τ : List Ty}

theorem Meets.advance (h : Meets u s steps m i locals callers A) (o : Observer σ) (seen : σ)
    (hret : i ≠ .ret) :
    advance u o ⟨s, steps, seen⟩ = .ofStep (steps + 1) (o.see seen m s.frame.pc i)
      (step u.image u.hosts m i s.next) ∧
    advance u o ⟨s.veil ⟨s.frame.method, none, locals, callers⟩, steps, seen⟩ =
      .ofStep (steps + 1) (o.see seen m s.frame.pc i)
        (step u.image u.hosts m i (s.next.veil ⟨s.frame.method, none, locals, callers⟩)) :=
  ⟨advance_step h.method h.instr h.limit hret, advance_step h.method h.instr h.limit hret⟩

/-- An instruction that does not look behind the veil does the same in both runs. -/
theorem Meets.plain (h : Meets u s steps m i locals callers A) (hlook : looksBehind i = false)
    (hret : i ≠ .ret)
    (hsafe : ∀ s', step u.image u.hosts m i s.next = .ok () s' →
      ∃ τ, Reaches u.image m (fun _ _ => False) s'.frame.pc ⟨τ, A⟩) :
    Paired u.image (Machine.advance u o ⟨s, steps, seen⟩) (advanceFilled u o fill
      ⟨s.veil ⟨s.frame.method, none, locals, callers⟩, steps, seen⟩) := by
  obtain ⟨hadv, hadv'⟩ := h.advance o seen hret
  rw [step_passes u.image u.hosts m hlook (fun _ => rfl)] at hadv'
  cases hstep : step u.image u.hosts m i s.next with
  | error e s' =>
    rw [hstep] at hadv hadv'
    rw [hadv, advanceFilled_ended hadv']
    rfl
  | ok a s' =>
    rw [hstep] at hadv hadv'
    obtain ⟨hmethod, hlocals, hcallers, _⟩ := step_keeps hlook hstep
    obtain ⟨τ, hr⟩ := hsafe s' hstep
    rw [hadv, advanceFilled_same hadv' (Nat.le_refl _)]
    refine ⟨⟨locals, callers, ?_, ⟨m, _, ?_, hr, ?_, ?_⟩, ?_⟩, rfl, rfl⟩
    · rw [hmethod]
      rfl
    · rw [hmethod]
      exact h.method
    · rw [hlocals]
      exact h.size
    · rw [hlocals]
      exact h.assigned
    · rw [hcallers]
      exact h.callers

theorem Meets.loadLocal {slot : Nat} (h : Meets u s steps m (.loadLocal slot) locals callers A)
    (hslot : A slot)
    (hsafe : Reaches u.image m (fun _ _ => False) (s.frame.pc + 1) ⟨τ, A⟩) :
    Paired u.image (Machine.advance u o ⟨s, steps, seen⟩) (advanceFilled u o fill
      ⟨s.veil ⟨s.frame.method, none, locals, callers⟩, steps, seen⟩) := by
  obtain ⟨hadv, hadv'⟩ := h.advance o seen (by simp)
  rw [step, Machine.loadLocal] at hadv hadv'
  rw [show s.next.frame.locals[slot]? = s.frame.locals[slot]? from rfl] at hadv
  rw [show (s.next.veil ⟨s.frame.method, none, locals, callers⟩).frame.locals[slot]? =
    s.frame.locals[slot]? from h.assigned slot hslot] at hadv'
  cases hv : s.frame.locals[slot]? with
  | none =>
    rw [hv] at hadv hadv'
    rw [hadv, advanceFilled_ended hadv']
    rfl
  | some v =>
    rw [hv] at hadv hadv'
    rw [hadv, advanceFilled_same hadv' (Nat.le_refl _)]
    exact ⟨⟨locals, callers, rfl, ⟨m, _, h.method, hsafe, h.size, h.assigned⟩, h.callers⟩, rfl, rfl⟩

theorem storeLocal_ok {slot : Nat} (v : Value) (h : slot < s.frame.locals.size) :
    storeLocal slot v s = .ok ()
      { s with frame := { s.frame with locals := s.frame.locals.setIfInBounds slot v } } :=
  if_pos h

theorem storeLocal_error {slot : Nat} (v : Value) (h : ¬ slot < s.frame.locals.size) :
    storeLocal slot v s = .error (.invalidProgram (.noLocalSlot slot)) s := if_neg h

/-- A local variable is assigned, and from then on has the same value in both runs. -/
theorem Meets.storeLocal {slot : Nat} (h : Meets u s steps m (.storeLocal slot) locals callers A)
    (hsafe : Reaches u.image m (fun _ _ => False) (s.frame.pc + 1)
      ⟨τ, fun k => k = slot ∨ A k⟩) :
    Paired u.image (Machine.advance u o ⟨s, steps, seen⟩) (advanceFilled u o fill
      ⟨s.veil ⟨s.frame.method, none, locals, callers⟩, steps, seen⟩) := by
  obtain ⟨hadv, hadv'⟩ := h.advance o seen (by simp)
  rw [step, bind_run] at hadv hadv'
  rw [Passes.pop] at hadv'
  cases hpop : pop m s.next with
  | error e s' =>
    rw [hpop] at hadv hadv'
    rw [hadv, advanceFilled_ended hadv']
    rfl
  | ok v s' =>
    obtain ⟨hmethod, hlocals, hcallers, hpc⟩ : s'.frame.method = s.frame.method ∧
        s'.frame.locals = s.frame.locals ∧ s'.callers = s.callers ∧
        s'.frame.pc = s.frame.pc + 1 := own_of_passes (fun _ => Passes.pop) hpop
    rw [hpop] at hadv hadv'
    dsimp only [veilResult] at hadv hadv'
    by_cases hlt : slot < s.frame.locals.size
    · have hlt' : slot < (s'.veil ⟨s.frame.method, none, locals, callers⟩).frame.locals.size :=
        Nat.lt_of_lt_of_eq hlt h.size.symm
      rw [storeLocal_ok v (by rw [hlocals]; exact hlt)] at hadv
      rw [storeLocal_ok v hlt'] at hadv'
      rw [hadv, advanceFilled_same hadv' (Nat.le_refl _)]
      refine ⟨⟨locals.setIfInBounds slot v, callers, ?_,
        ⟨m, ⟨τ, fun k => k = slot ∨ A k⟩, ?_, ?_, ?_, ?_⟩, ?_⟩, rfl, rfl⟩
      · dsimp only [Progress.ofStep]
        rw [hmethod]
        rfl
      · dsimp only
        rw [hmethod]
        exact h.method
      · dsimp only
        rw [hpc]
        exact hsafe
      · simp [hlocals, h.size]
      · dsimp only
        rw [hlocals]
        intro k hk
        rw [Array.getElem?_setIfInBounds, Array.getElem?_setIfInBounds, h.size]
        by_cases hks : slot = k
        · rw [if_pos hks, if_pos hks]
        · rw [if_neg hks, if_neg hks]
          exact h.assigned k (hk.resolve_left (Ne.symm hks))
      · dsimp only
        rw [hcallers]
        exact h.callers
    · have hlt' : ¬ slot < (s'.veil ⟨s.frame.method, none, locals, callers⟩).frame.locals.size :=
        fun hlt' => hlt (Nat.lt_of_lt_of_eq hlt' h.size)
      rw [storeLocal_error v (by rw [hlocals]; exact hlt)] at hadv
      rw [storeLocal_error v hlt'] at hadv'
      rw [hadv, advanceFilled_ended hadv']
      rfl

/-- A call starts a frame; in the second run its local variables get other values. -/
theorem Meets.call {id argc : Nat} (h : Meets u s steps m (.call id argc) locals callers A)
    (hv : Verified u.image)
    (hsafe : Reaches u.image m (fun _ _ => False) (s.frame.pc + 1) ⟨τ, A⟩) :
    Paired u.image (Machine.advance u o ⟨s, steps, seen⟩) (advanceFilled u o fill
      ⟨s.veil ⟨s.frame.method, none, locals, callers⟩, steps, seen⟩) := by
  obtain ⟨hadv, hadv'⟩ := h.advance o seen (by simp)
  rw [step, bind_run] at hadv hadv'
  rw [Passes.popMany] at hadv'
  cases hpop : popMany m argc s.next with
  | error e s' =>
    rw [hpop] at hadv hadv'
    rw [hadv, advanceFilled_ended hadv']
    rfl
  | ok args s' =>
    obtain ⟨hmethod, hlocals, hcallers, hpc⟩ : s'.frame.method = s.frame.method ∧
        s'.frame.locals = s.frame.locals ∧ s'.callers = s.callers ∧
        s'.frame.pc = s.frame.pc + 1 := own_of_passes (fun _ => Passes.popMany _) hpop
    rw [hpop] at hadv hadv'
    dsimp only [veilResult] at hadv hadv'
    unfold enter at hadv hadv'
    cases hcallee : callee u.image id args.length with
    | error e =>
      rw [hcallee] at hadv hadv'
      rw [hadv, advanceFilled_ended hadv']
      rfl
    | ok c =>
      rw [hcallee] at hadv hadv'
      obtain ⟨hc, hhost⟩ := callee_spec hcallee
      have hcaller : FrameTwins u.image s'.frame { s'.frame with locals } := by
        refine ⟨locals, rfl, m, ⟨τ, A⟩, ?_, ?_, ?_, ?_⟩
        · rw [hmethod]
          exact h.method
        · rw [hpc]
          exact hsafe
        · rw [hlocals]
          exact h.size
        · rw [hlocals]
          exact h.assigned
      have hcs : List.Forall₂ (FrameTwins u.image) (s'.frame :: s'.callers)
          ({ s'.frame with locals } :: callers) := .cons hcaller (hcallers ▸ h.callers)
      rw [hadv, advanceFilled_new hadv' (Nat.lt_succ_self _)]
      refine ⟨⟨(initialLocals s'.heap #[] c.locals.toList).1.mapIdx fun k _ => fill (steps + 1) k,
        { s'.frame with locals } :: callers, ?_, ⟨c, ⟨[], fun _ => False⟩, hc,
        (hv id c hc hhost).code, Array.size_mapIdx, fun _ hk => hk.elim⟩, hcs⟩, rfl, rfl⟩
      dsimp only
      rw [hmethod]
      rfl

theorem Meets.ret (h : Meets u s steps m .ret locals callers A) :
    Paired u.image (Machine.advance u o ⟨s, steps, seen⟩) (advanceFilled u o fill
      ⟨s.veil ⟨s.frame.method, none, locals, callers⟩, steps, seen⟩) := by
  have hadv : Machine.advance u o ⟨s, steps, seen⟩ = _ := advance_ret h.method h.instr h.limit
  have hadv' : Machine.advance u o ⟨s.veil ⟨s.frame.method, none, locals, callers⟩, steps, seen⟩ =
      .ofLeave (steps + 1) (o.see seen m s.frame.pc .ret)
        (leave m (s.next.veil ⟨s.frame.method, none, locals, callers⟩)) :=
    advance_ret h.method h.instr h.limit
  have hcs := h.callers
  obtain ⟨stack, frame, cs, heap, console⟩ := s
  unfold leave at hadv hadv'
  dsimp only [State.next, State.veil] at hadv hadv' hcs ⊢
  by_cases hdepth : stack.size - (frame.to (frame.pc + 1)).base ≠ if m.returnsValue then 1 else 0
  · rw [if_pos hdepth] at hadv hadv'
    rw [hadv, advanceFilled_ended hadv']
    rfl
  · rw [if_neg hdepth] at hadv hadv'
    cases hcs with
    | nil =>
      rw [hadv, advanceFilled_ended hadv']
      rfl
    | cons htwin hcs =>
      obtain ⟨locals', rfl, hagree⟩ := htwin
      rw [hadv, advanceFilled_same hadv' (Nat.le_succ _)]
      exact ⟨⟨locals', _, rfl, hagree, hcs⟩, rfl, rfl⟩

/-- Twins take the same step. -/
theorem Twins.advance (hv : Verified u.image) {t : State} (h : Twins u.image s t) :
    Paired u.image (advance u o ⟨s, steps, seen⟩) (advanceFilled u o fill ⟨t, steps, seen⟩) := by
  obtain ⟨locals, callers, rfl, ⟨m, S, hm, ⟨S', hle, hsafe⟩, hsize, hagree⟩, hcs⟩ := h
  obtain ⟨i, next, branch, hi, hgoes, hnext, hbranch⟩ :=
    covers_safe _ _ (hsafe.resolve_right id)
  have hagree' : ∀ k, S'.assigned k → locals[k]? = s.frame.locals[k]? := fun k hk =>
    hagree k (hle.assigned k hk)
  cases hlim : u.exceeded (steps + 1) with
  | some limit =>
    have hadv : Machine.advance u o ⟨s, steps, seen⟩ = _ := advance_exceeded hm hi hlim
    have hadv' : Machine.advance u o ⟨s.veil ⟨s.frame.method, none, locals, callers⟩, steps, seen⟩ =
        .ended (.error (.stepLimitExceeded limit))
          ⟨s.veil ⟨s.frame.method, none, locals, callers⟩, steps + 1, seen⟩ :=
      advance_exceeded (s := s.veil ⟨s.frame.method, none, locals, callers⟩) hm hi hlim
    rw [hadv, advanceFilled_ended hadv']
    rfl
  | none =>
    have hmeets : Meets u s steps m i locals callers S'.assigned :=
      ⟨hm, hi, hlim, hsize, hagree', hcs⟩
    cases hgoes with
    | takes ρ A ht =>
      have hlook : looksBehind i = false := by cases ht <;> rfl
      have hstay : branches i = false := by cases ht <;> rfl
      refine hmeets.plain hlook (by rintro rfl; cases ht) fun s' hs' => ?_
      rw [(step_keeps hlook hs').2.2.2 hstay]
      exact ⟨_, hnext _ rfl⟩
    | loadArg ρ A _ | storeArg ρ A _ =>
      refine hmeets.plain rfl (by simp) fun s' hs' => ?_
      rw [(step_keeps rfl hs').2.2.2 rfl]
      exact ⟨_, hnext _ rfl⟩
    | loadLocal ρ _ hslot => exact hmeets.loadLocal hslot (hnext _ rfl)
    | storeLocal ρ A _ => exact hmeets.storeLocal (hnext _ rfl)
    | branchCmp ρ A hpos _ _ =>
      refine hmeets.plain rfl (by simp) fun s' hs' => ?_
      rcases branchCmp_pc hs' with hpc | hpc
      · rw [hpc]
        exact ⟨_, hnext _ rfl⟩
      · rw [hpos] at hpc
        rw [← Option.some.inj hpc]
        exact ⟨_, hbranch _ _ rfl⟩
    | branchIfTrue ρ A hpos _ =>
      refine hmeets.plain rfl (by simp) fun s' hs' => ?_
      rcases branch_pc (fun _ => Passes.popInt) hs' with hpc | hpc
      · rw [hpc]
        exact ⟨_, hnext _ rfl⟩
      · rw [hpos] at hpc
        rw [← Option.some.inj hpc]
        exact ⟨_, hbranch _ _ rfl⟩
    | jump _ hpos =>
      refine hmeets.plain rfl (by simp) fun s' hs' => ?_
      have hpc := jump_pc hs'
      rw [hpos] at hpc
      rw [← Option.some.inj hpc]
      exact ⟨S'.stack, hbranch _ _ rfl⟩
    | call ρ A _ _ => exact hmeets.call hv (hnext _ rfl)
    | ret A => exact hmeets.ret

/-- Twins take the same steps. -/
theorem Twins.go (hv : Verified u.image) :
    ∀ (k : Nat) {s t : State} {steps : Nat} {seen : σ}, Twins u.image s t →
      Paired u.image (go u o k ⟨s, steps, seen⟩) (goFilled u o fill k ⟨t, steps, seen⟩) := by
  intro k
  induction k with
  | zero => exact fun h => ⟨h, rfl, rfl⟩
  | succ k ih =>
    intro s t steps seen h
    have hstep : Paired u.image (Machine.advance u o ⟨s, steps, seen⟩)
        (advanceFilled u o fill ⟨t, steps, seen⟩) := h.advance hv
    rw [Machine.go, goFilled]
    cases hs : Machine.advance u o ⟨s, steps, seen⟩ with
    | ended outcome r =>
      rw [hs] at hstep
      cases ht : advanceFilled u o fill ⟨t, steps, seen⟩ with
      | ended outcome' r' =>
        rw [ht] at hstep
        exact hstep
      | running r' =>
        rw [ht] at hstep
        exact hstep.elim
    | running r =>
      rw [hs] at hstep
      cases ht : advanceFilled u o fill ⟨t, steps, seen⟩ with
      | ended outcome' r' =>
        rw [ht] at hstep
        exact hstep.elim
      | running r' =>
        rw [ht] at hstep
        obtain ⟨state, steps, seen⟩ := r
        obtain ⟨state', steps', seen'⟩ := r'
        obtain ⟨htwins, rfl, rfl⟩ := hstep
        exact ih htwins

end

/-! ### Runs of compiled programs -/

section

variable {σ : Type} {p : Program} {image : Image}

/-- Definite assignment is sound: whatever values the local variables of each frame start with, of
any kind and chosen anew for each frame, a run of a compiled program ends after the same number of
instructions, with the same result or fault, the same arrays and the same console. -/
theorem compiled_run_filled (h : Compiles p image) (hosts : Hosts) (limit : Option Nat)
    (o : Observer σ) (seen : σ) (console : Console) (fill : Nat → Nat → Value) (fuel : Nat) :
    (runFilled ⟨image, hosts, limit⟩ o fill seen console fuel).map ending =
      (runProgram ⟨image, hosts, limit⟩ o seen console fuel).map ending := by
  obtain ⟨id, m, _, hm, hhost, _, hstart⟩ := h.start console
  have hcode := (h.verified id m hm hhost).code
  unfold runFilled runProgram
  rw [hstart]
  dsimp only
  generalize hs : State.of [] [] (calledFrame m ⟨#[], console⟩ 0 0 id []) []
    (calledEmpties m ⟨#[], console⟩ 0) ⟨#[], console⟩ = s
  have htwins : Twins image s (s.refill (fill 0)) := by
    subst hs
    refine ⟨_, [], rfl, ⟨m, ⟨[], fun _ => False⟩, hm, hcode, Array.size_mapIdx, fun _ hk => ?_⟩,
      .nil⟩
    exact hk.elim
  have hpaired : Paired image (go ⟨image, hosts, limit⟩ o fuel ⟨s, 0, seen⟩)
      (goFilled ⟨image, hosts, limit⟩ o fill fuel ⟨s.refill (fill 0), 0, seen⟩) :=
    htwins.go (u := ⟨image, hosts, limit⟩) h.verified fuel
  split
  · next hfilled =>
    rw [hfilled] at hpaired
    split
    · next hgo =>
      rw [hgo] at hpaired
      exact congrArg some hpaired.symm
    · next hgo =>
      rw [hgo] at hpaired
      exact hpaired.elim
  · next hfilled =>
    rw [hfilled] at hpaired
    split
    · next hgo =>
      rw [hgo] at hpaired
      exact hpaired.elim
    · rfl

theorem nearImage_run_filled :
    (runFilled ⟨nearImage, Hosts.standard, none⟩ LabelCounter.observer
      (fun steps slot => if steps = slot then .str "unset" else .int 7) .zero (.ofLines []) 40).map
        ending =
      (runProgram ⟨nearImage, Hosts.standard, none⟩ LabelCounter.observer .zero (.ofLines []) 40).map
        ending :=
  compiled_run_filled nearProgram_compiled Hosts.standard none LabelCounter.observer .zero
    (.ofLines []) _ 40

end

end Quill.Machine
