import Quill.Proofs.Machine.Regions

/-! # Step limits

A limit on the number of instructions is looked at after an instruction has been found and before it
is carried out.  So a run with a limit goes as the run without one for as many instructions as the
limit allows (`go_capped`); then it ends as that run does, or it is cut short (`limit_cases`).  The
instructions that a run has begun are those that its observer was told of, except for one that the
limit has refused (`counted_advance`). -/

namespace Quill.Machine

open Code

section

variable {σ : Type} {u : Setup} {o : Observer σ}

/-! ### One instruction -/

/-- The setup with another limit, or without one. -/
def Setup.capped (u : Setup) (limit : Option Nat) : Setup := { u with limit }

theorem exceeded_eq_some {steps n : Nat} :
    u.exceeded steps = some n ↔ u.limit = some n ∧ n < steps := by
  simp [Setup.exceeded, Option.filter_eq_some_iff]

theorem exceeded_eq_none {steps : Nat} :
    u.exceeded steps = none ↔ ∀ n, u.limit = some n → steps ≤ n := by
  simp [Setup.exceeded, Option.filter_eq_none_iff]

/-- A limit that does not refuse the next instruction makes no difference to it. -/
theorem advance_capped {r : Run σ} {n : Nat} (h : r.steps < n) :
    advance (u.capped (some n)) o r = advance (u.capped none) o r := by
  have hsome : (u.capped (some n)).exceeded (r.steps + 1) = none := by
    rw [exceeded_eq_none]
    intro k hk
    obtain rfl := Option.some.inj hk
    exact h
  unfold advance
  dsimp only
  rw [hsome]
  rfl

/-- Either no instruction is found, whatever the limit, or there is one. -/
theorem lost_or_at (u : Setup) (s : State) :
    (∃ e, ∀ limit (o : Observer σ) steps seen,
        advance (u.capped limit) o ⟨s, steps, seen⟩ = .ended (.error e) ⟨s, steps, seen⟩) ∨
      ∃ m i, At u s.frame m i := by
  cases hm : u.image.methods[s.frame.method]? with
  | none =>
    refine .inl ⟨.invalidProgram (.noMethod s.frame.method), fun limit o steps seen => ?_⟩
    unfold advance Setup.capped
    dsimp only
    rw [hm]
  | some m =>
    cases hi : m.code[s.frame.pc]? with
    | none =>
      refine .inl ⟨.invalidProgram (.pastEnd m.name), fun limit o steps seen => ?_⟩
      unfold advance Setup.capped
      dsimp only
      rw [hm]
      dsimp only
      rw [hi]
    | some i => exact .inr ⟨m, i, hm, hi⟩

/-- An instruction that is carried out is counted, and the observer is told of it. -/
theorem advance_told {s : State} {m : Method} {i : Instr} (hat : At u s.frame m i) {steps : Nat}
    (seen : σ) (hlim : u.exceeded (steps + 1) = none) :
    (advance u o ⟨s, steps, seen⟩).Holds
      (fun r => r.steps = steps + 1 ∧ r.seen = o.see seen m s.frame.pc i)
      fun _ r => r.steps = steps + 1 ∧ r.seen = o.see seen m s.frame.pc i := by
  by_cases hret : i = .ret
  · subst hret
    rw [advance_ret hat.1 hat.2 hlim]
    cases leave m s.next with
    | ok result s' => cases result <;> exact ⟨rfl, rfl⟩
    | error e s' => exact ⟨rfl, rfl⟩
  · rw [advance_step hat.1 hat.2 hlim hret]
    cases step u.image u.hosts m i s.next <;> exact ⟨rfl, rfl⟩

/-- A step that goes on counts one instruction; one that ends the run may count none. -/
theorem steps_advance (u : Setup) (o : Observer σ) (r : Run σ) :
    (advance u o r).Holds (fun r' => r'.steps = r.steps + 1)
      fun _ r' => r.steps ≤ r'.steps ∧ r'.steps ≤ r.steps + 1 := by
  obtain ⟨s, steps, seen⟩ := r
  rcases lost_or_at (σ := σ) u s with ⟨e, he⟩ | ⟨m, i, hat⟩
  · rw [show u = u.capped u.limit from rfl, he]
    exact ⟨Nat.le_refl _, Nat.le_succ _⟩
  · cases hlim : u.exceeded (steps + 1) with
    | some n =>
      rw [advance_exceeded hat.1 hat.2 hlim]
      exact ⟨Nat.le_succ _, Nat.le_refl _⟩
    | none =>
      have htold := advance_told (o := o) hat seen hlim
      generalize advance u o ⟨s, steps, seen⟩ = next at htold ⊢
      cases next with
      | running r' => exact htold.1
      | ended outcome r' => exact ⟨htold.1 ▸ Nat.le_succ _, Nat.le_of_eq htold.1⟩

/-! ### Runs -/

/-- A run that goes on has counted its instructions; one that has ended has counted no more. -/
theorem steps_go (u : Setup) (o : Observer σ) : ∀ (k : Nat) (r : Run σ),
    (go u o k r).Holds (fun q => q.steps = r.steps + k)
      fun _ q => r.steps ≤ q.steps ∧ q.steps ≤ r.steps + k := by
  intro k
  induction k with
  | zero => exact fun r => rfl
  | succ k ih =>
    intro r
    have hstep := steps_advance u o r
    rw [go]
    cases hadv : advance u o r with
    | ended outcome r' =>
      rw [hadv] at hstep
      exact ⟨hstep.1, by have := hstep.2; omega⟩
    | running r' =>
      rw [hadv] at hstep
      have hcount : r'.steps = r.steps + 1 := hstep
      have hrest := ih r'
      show (go u o k r').Holds _ _
      generalize go u o k r' = next at hrest ⊢
      cases next with
      | ended outcome q =>
        obtain ⟨hlow, hhigh⟩ := hrest
        exact ⟨by omega, by omega⟩
      | running q =>
        have hq : q.steps = r'.steps + k := hrest
        show q.steps = r.steps + (k + 1)
        omega

/-- A run that goes on for so many instructions does not end within them. -/
theorem go_running_le {j k : Nat} {r q r' : Run σ} {outcome : Outcome} (h : go u o j r = .running q)
    (hend : go u o k r = .ended outcome r') : j ≤ k := by
  refine Nat.le_of_not_lt fun hlt => ?_
  obtain ⟨d, rfl⟩ := Nat.exists_eq_add_of_le (Nat.le_of_lt hlt)
  rw [go_add, hend] at h
  cases h

/-- Without a limit, a run that finds an instruction carries it out before it ends. -/
theorem steps_lt {q r : Run σ} {m : Method} {i : Instr} (hat : At u q.state.frame m i)
    (hlimit : u.limit = none) {k : Nat} {outcome : Outcome} (hend : go u o k q = .ended outcome r) :
    q.steps < r.steps := by
  have hlim : u.exceeded (q.steps + 1) = none := by
    rw [exceeded_eq_none, hlimit]
    exact fun n hn => by cases hn
  have htold := advance_told (o := o) hat q.seen hlim
  cases k with
  | zero => cases hend
  | succ k =>
    rw [go] at hend
    cases hadv : advance u o q with
    | ended outcome' r' =>
      rw [hadv] at hend htold
      cases hend
      exact htold.1 ▸ Nat.lt_succ_self _
    | running r' =>
      rw [hadv] at hend htold
      have hrest := steps_go u o k r'
      rw [show go u o k r' = _ from hend] at hrest
      have hcount : r'.steps = q.steps + 1 := htold.1
      exact Nat.lt_of_lt_of_le (hcount ▸ Nat.lt_succ_self _) hrest.1

/-- As many instructions as the limit allows go as without a limit. -/
theorem go_capped {n : Nat} : ∀ (k : Nat) (r : Run σ), r.steps + k ≤ n →
    go (u.capped (some n)) o k r = go (u.capped none) o k r := by
  intro k
  induction k with
  | zero => exact fun r _ => rfl
  | succ k ih =>
    intro r hle
    have hstep := steps_advance (u.capped none) o r
    rw [go, go, advance_capped (by omega)]
    cases hadv : advance (u.capped none) o r with
    | ended outcome r' => rfl
    | running r' =>
      rw [hadv] at hstep
      have hcount : r'.steps = r.steps + 1 := hstep
      exact ih r' (by omega)

/-! ### Counters -/

/-- The instructions that the run has begun are those that its counter was told of, and the limit
allows them. -/
structure Counted (limit : Option Nat) (r : Run LabelCounter) : Prop where
  told : r.steps = r.seen.steps
  allowed : ∀ n, limit = some n → r.steps ≤ n

/-- The limit has ended the run: it has begun an instruction more than the limit allows, and its
counter was told of all but that. -/
structure Refused (n : Nat) (outcome : Outcome) (r : Run LabelCounter) : Prop where
  outcome : outcome = .error (.stepLimitExceeded n)
  steps : r.steps = n + 1
  told : r.seen.steps = n

theorem steps_see (seen : LabelCounter) (m : Method) (pc : Nat) (i : Instr) :
    (LabelCounter.observer.see seen m pc i).steps = seen.steps + 1 := by
  cases i <;> rfl

theorem counted_advance {u : Setup} {r : Run LabelCounter} (h : Counted u.limit r) :
    (advance u LabelCounter.observer r).Holds (Counted u.limit)
      fun outcome r => Counted u.limit r ∨ ∃ n, u.limit = some n ∧ Refused n outcome r := by
  obtain ⟨s, steps, seen⟩ := r
  have hsteps : steps = seen.steps := h.told
  rcases lost_or_at u s with ⟨e, he⟩ | ⟨m, i, hat⟩
  · rw [show u = u.capped u.limit from rfl, he]
    exact .inl h
  · cases hlim : u.exceeded (steps + 1) with
    | some n =>
      obtain ⟨hn, hlt⟩ := exceeded_eq_some.mp hlim
      have hle : steps ≤ n := h.allowed n hn
      rw [advance_exceeded hat.1 hat.2 hlim]
      exact .inr ⟨n, hn, rfl, show steps + 1 = n + 1 by omega, show seen.steps = n by omega⟩
    | none =>
      have hnext : ∀ r : Run LabelCounter, r.steps = steps + 1 ∧
          r.seen = LabelCounter.observer.see seen m s.frame.pc i → Counted u.limit r := by
        rintro r ⟨hcount, hseen⟩
        refine ⟨?_, ?_⟩
        · rw [hcount, hseen, steps_see, hsteps]
        · rw [hcount]
          exact exceeded_eq_none.mp hlim
      have htold := advance_told (o := LabelCounter.observer) hat seen hlim
      generalize advance u LabelCounter.observer ⟨s, steps, seen⟩ = next at htold ⊢
      cases next with
      | running r => exact hnext r htold
      | ended outcome r => exact .inl (hnext r htold)

/-- What counts the instructions of a whole run. -/
theorem counted_go (u : Setup) (k : Nat) (s : State) :
    (go u LabelCounter.observer k ⟨s, 0, .zero⟩).Holds (Counted u.limit)
      fun outcome r => Counted u.limit r ∨ ∃ n, u.limit = some n ∧ Refused n outcome r :=
  go_invariant (fun _ => counted_advance) k _ ⟨rfl, fun n _ => Nat.zero_le n⟩

end

/-! ### Machines -/

namespace Vm

variable {σ : Type} {vm vm' : Vm} {o : Observer σ} {seen : σ} {console : Console} {fuel : Nat}
  {outcome : Outcome} {r : Run σ}

theorem finish_ok {s : State} :
    finish o seen console fuel (.ok s, vm) = some (outcome, r, vm') ↔
      go vm.setup o fuel ⟨s, 0, seen⟩ = .ended outcome r ∧ vm' = vm.after r := by
  unfold finish
  dsimp only
  cases go vm.setup o fuel ⟨s, 0, seen⟩ with
  | running q => simp
  | ended outcome' r' =>
    simp only [Option.some.injEq, Prod.mk.injEq, Progress.ended.injEq, and_assoc]
    refine and_congr_right fun _ => and_congr_right fun hr => ?_
    rw [hr]
    exact eq_comm

/-- A machine without arrays runs the program as a new one does, whatever it has run before. -/
theorem run_eq_runProgram (hheap : vm.heap = .bare) (o : Observer σ) (seen : σ)
    (console : Console) (fuel : Nat) :
    (vm.run o seen console fuel).map (fun ran => (ran.1, ran.2.1)) =
      runProgram vm.setup o seen console fuel := by
  unfold run startEntry runProgram Machine.startEntry
  cases vm.setup.image.entry with
  | none =>
    simp only [finish, hheap, Option.map_some]
    rfl
  | some method =>
    dsimp only [start]
    rw [hheap]
    cases Machine.start vm.setup.image .bare console method [] with
    | error e => rfl
    | ok s =>
      dsimp only [finish]
      cases go vm.setup o fuel ⟨s, 0, seen⟩ with
      | running q => rfl
      | ended outcome r => rfl

/-- A run of the program gives the machine a new count, unless the program has no entry. -/
theorem steps_run (h : vm.run o seen console fuel = some (outcome, r, vm')) :
    vm'.steps = if vm.setup.image.entry.isSome then r.steps else vm.steps := by
  unfold run startEntry at h
  cases hentry : vm.setup.image.entry with
  | none =>
    rw [hentry] at h
    cases h
    rfl
  | some method =>
    rw [hentry] at h
    dsimp only [start] at h
    rw [Option.isSome_some, if_pos rfl]
    cases hs : Machine.start vm.setup.image vm.heap console method [] with
    | error e =>
      rw [hs] at h
      cases h
      rfl
    | ok s =>
      rw [hs] at h
      obtain ⟨-, rfl⟩ := finish_ok.mp h
      rfl

end Vm

/-! ### Calls -/

/-- A call of a method from outside: the method and its arguments, the image and the routines that
it runs with, and the arrays and the console that it finds. -/
structure Call where
  image : Image
  hosts : Hosts
  heap : Heap
  console : Console
  method : Nat
  args : List Value

namespace Call

variable (c : Call)

/-- At most so many instructions of the call, with a limit or without one.  A fresh counter watches
it. -/
def run (limit : Option Nat) (fuel : Nat) : Progress LabelCounter :=
  match start c.image c.heap c.console c.method c.args with
  | .error e => .ended (.error e)
    { state := { (default : State) with heap := c.heap, console := c.console }
      steps := 0, seen := .zero }
  | .ok state =>
    go ⟨c.image, c.hosts, limit⟩ LabelCounter.observer fuel { state, steps := 0, seen := .zero }

def Ends (limit : Option Nat) (outcome : Outcome) (r : Run LabelCounter) : Prop :=
  ∃ fuel, c.run limit fuel = .ended outcome r

/-- The limit cuts the call short: it ends in the fault of the limit, and all else is as it is
without a limit after so many instructions. -/
def CutShort (n : Nat) : Prop :=
  ∃ q, c.run none n = .running q ∧ q.seen.steps = n ∧
    c.Ends (some n) (.error (.stepLimitExceeded n)) { q with steps := n + 1 }

variable {c} {limit : Option Nat}

theorem Ends.unique {outcome outcome' : Outcome} {r r' : Run LabelCounter}
    (h : c.Ends limit outcome r) (h' : c.Ends limit outcome' r') : outcome = outcome' ∧ r = r' := by
  obtain ⟨fuel, h⟩ := h
  obtain ⟨fuel', h'⟩ := h'
  unfold run at h h'
  cases hs : start c.image c.heap c.console c.method c.args with
  | error e =>
    rw [hs] at h h'
    rw [h] at h'
    cases h'
    exact ⟨rfl, rfl⟩
  | ok s =>
    rw [hs] at h h'
    exact go_ended_unique h h'

theorem Ends.counted {outcome : Outcome} {r : Run LabelCounter} (h : c.Ends limit outcome r) :
    Counted limit r ∨ ∃ n, limit = some n ∧ Refused n outcome r := by
  obtain ⟨fuel, h⟩ := h
  unfold run at h
  cases hs : start c.image c.heap c.console c.method c.args with
  | error e =>
    rw [hs] at h
    cases h
    exact .inl ⟨rfl, fun n _ => Nat.zero_le n⟩
  | ok s =>
    have hcounted := counted_go ⟨c.image, c.hosts, limit⟩ fuel s
    rw [hs] at h
    dsimp only at h
    rw [h] at hcounted
    exact hcounted

/-- A machine that makes the call is left with what the call has come to, and the machine's earlier
runs do not matter. -/
theorem Ends.runMethod {outcome : Outcome} {r : Run LabelCounter} (h : c.Ends limit outcome r)
    {vm : Vm} (hsetup : vm.setup = ⟨c.image, c.hosts, limit⟩) (hheap : vm.heap = c.heap) :
    ∃ fuel, vm.runMethod LabelCounter.observer .zero c.console c.method c.args fuel =
      some (outcome, r, vm.after r) := by
  obtain ⟨fuel, h⟩ := h
  refine ⟨fuel, ?_⟩
  obtain ⟨_, _, before⟩ := vm
  obtain rfl := hsetup
  obtain rfl := hheap
  unfold run at h
  unfold Vm.runMethod Vm.start
  dsimp only
  cases hs : start c.image c.heap c.console c.method c.args with
  | error e =>
    rw [hs] at h
    cases h
    rfl
  | ok s =>
    rw [hs] at h
    exact Vm.finish_ok.mpr ⟨h, rfl⟩

end Call

/-! ### What a limit does -/

/-- Either the call ends within the limit, and does so without it; or the limit cuts it short, and
without it it begins more instructions. -/
theorem limit_cases (c : Call) (n : Nat) :
    (∃ outcome r, c.Ends none outcome r ∧ c.Ends (some n) outcome r ∧ r.steps ≤ n) ∨
      c.CutShort n ∧ ∀ outcome r, c.Ends none outcome r → n < r.steps := by
  let u : Setup := ⟨c.image, c.hosts, none⟩
  cases hs : start c.image c.heap c.console c.method c.args with
  | error e =>
    have hrun : ∀ limit, c.run limit 0 = .ended (.error e)
        { state := { (default : State) with heap := c.heap, console := c.console }
          steps := 0, seen := .zero } := by
      intro limit
      rw [Call.run, hs]
    exact .inl ⟨_, _, ⟨0, hrun none⟩, ⟨0, hrun (some n)⟩, Nat.zero_le n⟩
  | ok s =>
    have hrun : ∀ limit fuel, c.run limit fuel =
        go (u.capped limit) LabelCounter.observer fuel ⟨s, 0, .zero⟩ := by
      intro limit fuel
      rw [Call.run, hs]
      rfl
    have hsame := go_capped (u := u) (o := LabelCounter.observer) n ⟨s, 0, .zero⟩
      (Nat.le_of_eq (Nat.zero_add n))
    have hcount := steps_go (u.capped none) LabelCounter.observer n ⟨s, 0, .zero⟩
    have hcounted := counted_go (u.capped none) n s
    cases hgo : go (u.capped none) LabelCounter.observer n ⟨s, 0, .zero⟩ with
    | ended outcome r =>
      rw [hgo] at hcount hsame
      refine .inl ⟨outcome, r, ⟨n, ?_⟩, ⟨n, ?_⟩, (Nat.zero_add n) ▸ hcount.2⟩
      · rw [hrun, hgo]
      · rw [hrun, hsame]
    | running q =>
      rw [hgo] at hcount hcounted hsame
      have hq : q.steps = n := hcount.trans (Nat.zero_add n)
      have hseen : q.seen.steps = n := hcounted.told ▸ hq
      -- the next instruction is where the two runs can part
      have hnext : ∀ limit k,
          go (u.capped limit) LabelCounter.observer n ⟨s, 0, .zero⟩ = .running q →
          c.run limit (n + k) = go (u.capped limit) LabelCounter.observer k q := by
        intro limit k h
        rw [hrun, go_add, h]
      rcases lost_or_at u q.state with ⟨e, he⟩ | ⟨m, i, hat⟩
      · refine .inl ⟨.error e, q, ⟨n + 1, ?_⟩, ⟨n + 1, ?_⟩, Nat.le_of_eq hq⟩
        · rw [hnext none 1 hgo, go, he]
        · rw [hnext (some n) 1 hsame, go, he]
      · have hlim : (u.capped (some n)).exceeded (q.steps + 1) = some n :=
          exceeded_eq_some.mpr ⟨rfl, by omega⟩
        refine .inr ⟨⟨q, by rw [hrun, hgo], hseen, n + 1, ?_⟩, ?_⟩
        · rw [hnext (some n) 1 hsame, go,
            advance_exceeded (u := u.capped (some n)) hat.1 hat.2 hlim, hq]
        · rintro outcome r ⟨fuel, hend⟩
          rw [hrun] at hend
          obtain ⟨k, rfl⟩ := Nat.exists_eq_add_of_le (go_running_le hgo hend)
          rw [go_add, hgo] at hend
          exact hq ▸ steps_lt hat rfl hend

/-- **A limit only truncates.**  With a limit a call ends, and no more instructions than those of the
limit are carried out.  A call that ends without a limit ends in the same way, in the same state and
with the same counts, under each limit that is not below the number of its instructions; each other
limit cuts it short, and so does each limit on a call that does not end. -/
theorem limit_truncates (c : Call) (n : Nat) :
    (∃ outcome r, c.Ends (some n) outcome r ∧ r.seen.steps ≤ n) ∧
      (∀ outcome r, c.Ends none outcome r → r.steps = r.seen.steps ∧
        if r.seen.steps ≤ n then c.Ends (some n) outcome r else c.CutShort n) ∧
      ((∀ outcome r, ¬ c.Ends none outcome r) → c.CutShort n) := by
  have htold : ∀ {outcome r}, c.Ends none outcome r → r.steps = r.seen.steps := by
    intro outcome r h
    rcases h.counted with hcounted | ⟨k, hk, -⟩
    · exact hcounted.told
    · cases hk
  rcases limit_cases c n with ⟨outcome, r, hfree, hcapped, hle⟩ | ⟨hcut, hmore⟩
  · have hsteps := htold hfree
    refine ⟨⟨outcome, r, hcapped, hsteps ▸ hle⟩, fun outcome' r' h => ?_,
      fun h => absurd hfree (h outcome r)⟩
    obtain ⟨rfl, rfl⟩ := hfree.unique h
    exact ⟨hsteps, by rwa [if_pos (hsteps ▸ hle)]⟩
  · refine ⟨?_, fun outcome r h => ⟨htold h, ?_⟩, fun _ => hcut⟩
    · obtain ⟨q, -, hq, hend⟩ := hcut
      exact ⟨_, _, hend, Nat.le_of_eq hq⟩
    · rwa [if_neg (Nat.not_le.mpr (htold h ▸ hmore outcome r h))]

/-- A call of a method that passes a label, reads a line and writes it. -/
def echoCall : Call where
  image := {
    methods := #[⟨"main", [], .void, #[],
      #[.label 0, .intrinsic .readLn, .intrinsic .printLn, .ret], #[0], none⟩]
    strings := #[]
    hostRoutines := #[]
    entry := some 0 }
  hosts := []
  heap := .bare
  console := .ofLines ["one", "two"]
  method := 0
  args := []

/-- It is complete under a limit of its four instructions, and cut short under one of three. -/
theorem echoCall_truncated : ∃ r, echoCall.Ends none (.ok none) r ∧
    r.state.console.output = "one\n" ∧ echoCall.Ends (some 4) (.ok none) r ∧
    echoCall.CutShort 3 := by
  have hrun : ∃ r, echoCall.run none 4 = .ended (.ok none) r ∧ r.seen.steps = 4 ∧
      r.state.console.output = "one\n" := ⟨_, rfl, rfl, by decide +kernel⟩
  obtain ⟨r, hend, hsteps, hout⟩ := hrun
  have hfour := ((limit_truncates echoCall 4).2.1 _ r ⟨4, hend⟩).2
  have hthree := ((limit_truncates echoCall 3).2.1 _ r ⟨4, hend⟩).2
  rw [hsteps] at hfour hthree
  exact ⟨r, ⟨4, hend⟩, hout, hfour, hthree⟩

/-- **The count of instructions** that a call is left with is that of the instructions which its
observer was told of, exactly when it is within the limit.  Beyond the limit it counts one
instruction more, that which the limit has refused.  A machine that makes the call has this count
after it, whatever it has run before. -/
theorem steps_eq_seen_iff (c : Call) (limit : Option Nat) {outcome : Outcome} {r : Run LabelCounter}
    (h : c.Ends limit outcome r) :
    (r.steps = r.seen.steps ↔ ∀ n, limit = some n → r.steps ≤ n) ∧
      (∀ n, limit = some n → n < r.steps →
        outcome = .error (.stepLimitExceeded n) ∧ r.steps = n + 1 ∧ r.seen.steps = n) ∧
      ∀ vm : Vm, vm.setup = ⟨c.image, c.hosts, limit⟩ → vm.heap = c.heap →
        ∃ fuel vm', vm.runMethod LabelCounter.observer .zero c.console c.method c.args fuel =
          some (outcome, r, vm') ∧ vm'.steps = r.steps := by
  have hmachine : ∀ vm : Vm, vm.setup = ⟨c.image, c.hosts, limit⟩ → vm.heap = c.heap →
      ∃ fuel vm', vm.runMethod LabelCounter.observer .zero c.console c.method c.args fuel =
        some (outcome, r, vm') ∧ vm'.steps = r.steps := by
    intro vm hsetup hheap
    obtain ⟨fuel, hrun⟩ := h.runMethod hsetup hheap
    exact ⟨fuel, _, hrun, rfl⟩
  rcases h.counted with hcounted | ⟨k, rfl, hrefused⟩
  · refine ⟨iff_of_true hcounted.told hcounted.allowed, fun n hn hlt => ?_, hmachine⟩
    exact absurd (hcounted.allowed n hn) (Nat.not_le.mpr hlt)
  · have hsteps := hrefused.steps
    have hseen := hrefused.told
    refine ⟨iff_of_false (by omega) fun hle => ?_, fun n hn _ => ?_, hmachine⟩
    · have := hle k rfl
      omega
    · obtain rfl := Option.some.inj hn
      exact ⟨hrefused.outcome, hsteps, hseen⟩

/-- A call of a method that returns at once. -/
def idleCall : Call where
  image := {
    methods := #[⟨"main", [], .void, #[], #[.ret], #[], none⟩]
    strings := #[]
    hostRoutines := #[]
    entry := some 0 }
  hosts := []
  heap := .bare
  console := .ofLines []
  method := 0
  args := []

theorem idleCall_counted : ∃ r, idleCall.Ends (some 1) (.ok none) r ∧ r.steps = r.seen.steps := by
  have hrun : ∃ r, idleCall.run (some 1) 1 = .ended (.ok none) r ∧ r.steps = 1 := ⟨_, rfl, rfl⟩
  obtain ⟨r, hend, hsteps⟩ := hrun
  refine ⟨r, ⟨1, hend⟩, (steps_eq_seen_iff idleCall (some 1) ⟨1, hend⟩).1.mpr fun n hn => ?_⟩
  obtain rfl := Option.some.inj hn
  exact Nat.le_of_eq hsteps

/-- Under a limit of no instructions it is left with a count of one, and its observer was told of
none. -/
theorem idleCall_miscounted :
    ∃ r, idleCall.Ends (some 0) (.error (.stepLimitExceeded 0)) r ∧ r.steps = 1 ∧
      r.seen.steps = 0 :=
  ⟨_, ⟨1, rfl⟩, rfl, rfl⟩

end Quill.Machine
