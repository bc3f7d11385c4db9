import Mathlib.Data.List.Forall2
import Quill.Proofs.Machine.Advance
import Quill.Proofs.Machine.Veil

/-! # Images that differ in their numbering

Instructions name methods, texts, host routines and labels by number.  Two images mirror each other
(`Mirror`) if their methods correspond in pairs and have the same code but for these numbers, which
name corresponding methods, the same texts, the same host routines and the same positions.

The runs of two such images go in lockstep: their states differ in the numbers of the methods of
their frames only (`Mirrored`), so they end after as many instructions, in the same way, with the
same arrays and the same console (`Mirror.runProgram`). -/

namespace Quill.Machine

open Code

/-! ### Images -/

/-- The instruction names something by its number. -/
def namesNumber : Instr → Bool
  | .label _ | .pushStr _ | .branchCmp _ _ _ | .branchIfTrue _ | .jump _ | .call _ _
  | .callHost _ => true
  | _ => false

/-- The instructions are the same but for the numbers of what they name. -/
inductive InstrMirror (p p' : Image) (R : Nat → Nat → Prop) (m m' : Method) : Instr → Instr → Prop
  | same {i : Instr} (h : namesNumber i = false) : InstrMirror p p' R m m' i i
  | label (l l' : Nat) : InstrMirror p p' R m m' (.label l) (.label l')
  | pushStr {k k' : Nat} {s : String} (h : p.strings[k]? = some s) (h' : p'.strings[k']? = some s) :
    InstrMirror p p' R m m' (.pushStr k) (.pushStr k')
  | branchCmp (cond : Comparison) (ty : Numeric) {l l' pos : Nat} (h : m.position? l = some pos)
    (h' : m'.position? l' = some pos) :
    InstrMirror p p' R m m' (.branchCmp cond ty l) (.branchCmp cond ty l')
  | branchIfTrue {l l' pos : Nat} (h : m.position? l = some pos) (h' : m'.position? l' = some pos) :
    InstrMirror p p' R m m' (.branchIfTrue l) (.branchIfTrue l')
  | jump {l l' pos : Nat} (h : m.position? l = some pos) (h' : m'.position? l' = some pos) :
    InstrMirror p p' R m m' (.jump l) (.jump l')
  | call {id id' : Nat} (h : R id id') (argc : Nat) :
    InstrMirror p p' R m m' (.call id argc) (.call id' argc)
  | callHost {k k' : Nat} {r : HostRoutine} (h : p.hostRoutines[k]? = some r)
    (h' : p'.hostRoutines[k']? = some r) :
    InstrMirror p p' R m m' (.callHost k) (.callHost k')

/-- The methods have code, and it is the same but for the numbers of what it names. -/
structure MethodMirror (p p' : Image) (R : Nat → Nat → Prop) (m m' : Method) : Prop where
  name : m.name = m'.name
  params : m.params = m'.params
  returnType : m.returnType = m'.returnType
  locals : m.locals = m'.locals
  host : m.host = none
  host' : m'.host = none
  code : ∀ pc : Nat, Option.Rel (InstrMirror p p' R m m') m.code[pc]? m'.code[pc]?

/-- Methods that correspond are the same but for numbers, and the methods to start with
correspond. -/
structure Mirror (p p' : Image) (R : Nat → Nat → Prop) : Prop where
  methods : ∀ {id id' : Nat}, R id id' → ∃ m m', p.methods[id]? = some m ∧
    p'.methods[id']? = some m' ∧ MethodMirror p p' R m m'
  entry : Option.Rel R p.entry p'.entry

/-! ### States -/

/-- The frames are those of methods that correspond. -/
def FrameMirror (R : Nat → Nat → Prop) (f g : Frame) : Prop :=
  ∃ method, g = { f with method } ∧ R f.method method

/-- The states differ in the methods of their frames, which correspond. -/
def Mirrored (R : Nat → Nat → Prop) (s t : State) : Prop :=
  ∃ method callers, t = s.veil ⟨method, none, s.frame.locals, callers⟩ ∧ R s.frame.method method ∧
    List.Forall₂ (FrameMirror R) s.callers callers

/-- Results of an instruction: states that mirror each other, or the same fault with the same arrays
and the same console. -/
def ResultMirror (R : Nat → Nat → Prop) :
    EStateM.Result Fault State Unit → EStateM.Result Fault State Unit → Prop
  | .ok _ s, .ok _ t => Mirrored R s t
  | .error e s, .error e' t => e = e' ∧ s.heap.arrays = t.heap.arrays ∧ s.console = t.console
  | _, _ => False

section

variable {p p' : Image} {R : Nat → Nat → Prop} {m m' : Method} {hosts : Hosts} {i i' : Instr}

theorem pop_congr (h : m.name = m'.name) : pop m = pop m' := by
  unfold pop
  rw [h]

theorem popMany_congr (h : m.name = m'.name) (count : Nat) :
    popMany m count = popMany m' count := by
  unfold popMany
  rw [h]

theorem jump_congr {l l' pos : Nat} (h : m.position? l = some pos)
    (h' : m'.position? l' = some pos) : jump m l = jump m' l' := by
  unfold jump
  rw [h, h']
  rfl

/-- Apart from calls, the instructions of the two images do the same. -/
theorem InstrMirror.step_eq (h : InstrMirror p p' R m m' i i') (hname : m.name = m'.name)
    (hcall : ∀ id argc, i ≠ .call id argc) : step p hosts m i = step p' hosts m' i' := by
  cases h with
  | same hi =>
    cases i with
    | label _ | pushStr _ | branchCmp _ _ _ | branchIfTrue _ | jump _ | call _ _ | callHost _ =>
      cases hi
    | intrinsic o =>
      cases o <;> simp only [step, intrinsic, popStr, popInt, pop_congr hname]
    | _ =>
      simp only [step, newArray, arrayGet, arraySet, popInt, popInts, pop_congr hname,
        popMany_congr hname]
  | label _ _ => rfl
  | pushStr hs hs' => rw [step, step, hs, hs']; rfl
  | branchCmp _ _ hl hl' => rw [step, step, pop_congr hname, jump_congr hl hl']
  | branchIfTrue hl hl' => rw [step, step, popInt, popInt, pop_congr hname, jump_congr hl hl']
  | jump hl hl' => exact jump_congr hl hl'
  | call _ _ => exact absurd rfl (hcall _ _)
  | callHost hr hr' =>
    simp only [step, Machine.callHost, hr, hr', popMany_congr hname]
    rfl

/-! ### Steps -/

section

variable {s t : State}

/-- An instruction other than a call does the same in states that mirror each other. -/
theorem Mirrored.step (h : Mirrored R s t) (hcall : ∀ id argc, i ≠ .call id argc) :
    ResultMirror R (step p hosts m i s) (step p hosts m i t) := by
  obtain ⟨method, callers, rfl, hR, hcs⟩ := h
  cases hlook : looksBehind i with
  | false =>
    rw [step_passes p hosts m hlook fun _ => rfl]
    cases hstep : Machine.step p hosts m i s with
    | error e s' => exact ⟨rfl, rfl, rfl⟩
    | ok a s' =>
      obtain ⟨hmethod, hlocals, hcallers, _⟩ := step_keeps hlook hstep
      rw [← hmethod] at hR
      rw [← hcallers] at hcs
      rw [← hlocals]
      exact ⟨method, callers, rfl, hR, hcs⟩
  | true =>
    cases i with
    | loadLocal slot =>
      rw [Machine.step, loadLocal, loadLocal]
      dsimp only [State.veil]
      cases s.frame.locals[slot]? with
      | none => exact ⟨rfl, rfl, rfl⟩
      | some v => exact ⟨method, callers, rfl, hR, hcs⟩
    | storeLocal slot =>
      rw [Machine.step, bind_run, bind_run, Passes.pop]
      cases hpop : pop m s with
      | error e s' => exact ⟨rfl, rfl, rfl⟩
      | ok v s' =>
        obtain ⟨hmethod, hlocals, hcallers, _⟩ := own_of_passes (fun _ => Passes.pop) hpop
        rw [← hmethod] at hR
        rw [← hcallers] at hcs
        rw [← hlocals]
        dsimp only [veilResult, storeLocal, State.veil]
        split
        · exact ⟨method, callers, rfl, hR, hcs⟩
        · exact ⟨rfl, rfl, rfl⟩
    | call id argc => exact absurd rfl (hcall id argc)
    | _ => cases hlook

/-- Corresponding methods can be called with the same numbers of arguments. -/
theorem Mirror.callee (h : Mirror p p' R) {id id' : Nat} (hid : R id id') (argc : Nat) :
    (∃ e, callee p id argc = .error e ∧ callee p' id' argc = .error e) ∨
      ∃ c c', callee p id argc = .ok c ∧ callee p' id' argc = .ok c' ∧
        MethodMirror p p' R c c' := by
  obtain ⟨c, c', hc, hc', hcode⟩ := h.methods hid
  have harity : c'.arity = c.arity := congrArg List.length hcode.params.symm
  unfold Machine.callee
  simp only [hc, hc', hcode.host, hcode.host', Option.isSome_none, Bool.false_eq_true, if_false,
    harity, hcode.name]
  by_cases hargc : argc = c.arity
  · rw [if_neg (not_not_intro hargc), if_neg (not_not_intro hargc)]
    exact .inr ⟨c, c', rfl, rfl, hcode⟩
  · rw [if_pos hargc, if_pos hargc]
    exact .inl ⟨_, rfl, rfl⟩

theorem MethodMirror.newFrame (h : MethodMirror p p' R m m') (heap : Heap) (height id id' : Nat)
    (args : List Value) : newFrame m' heap height id' args =
      ({ (newFrame m heap height id args).1 with method := id' },
        (newFrame m heap height id args).2) := by
  unfold Machine.newFrame
  rw [h.locals]

/-- Calls of corresponding methods lead from states that mirror each other to such states. -/
theorem Mirrored.call (h : Mirrored R s t) (hp : Mirror p p' R) (hname : m.name = m'.name)
    {id id' : Nat} (hid : R id id') (argc : Nat) :
    ResultMirror R (Machine.step p hosts m (.call id argc) s)
      (Machine.step p' hosts m' (.call id' argc) t) := by
  obtain ⟨method, callers, rfl, hR, hcs⟩ := h
  rw [Machine.step, Machine.step, bind_run, bind_run, ← popMany_congr hname, Passes.popMany]
  cases hpop : popMany m argc s with
  | error e s' => exact ⟨rfl, rfl, rfl⟩
  | ok args s' =>
    obtain ⟨hmethod, hlocals, hcallers, _⟩ := own_of_passes (fun _ => Passes.popMany _) hpop
    rw [← hmethod] at hR
    rw [← hcallers] at hcs
    rw [← hlocals]
    dsimp only [veilResult, enter]
    rcases hp.callee hid args.length with ⟨e, hc, hc'⟩ | ⟨c, c', hc, hc', hcode⟩
    · rw [hc, hc']
      exact ⟨rfl, rfl, rfl⟩
    · rw [hc, hc']
      dsimp only
      have hframe : FrameMirror R s'.frame { s'.frame with method } := ⟨method, rfl, hR⟩
      refine ⟨id', { s'.frame with method } :: callers, ?_, hid, .cons hframe hcs⟩
      dsimp only [State.veil]
      rw [hcode.newFrame s'.heap s'.stack.size id]
      rfl

end

end

/-! ### Runs -/

/-- What can be told of a run that has ended without looking at numbers: how it ended, the number
of its instructions, the arrays and the console. -/
def summary {σ : Type} (x : Outcome × Run σ) : Outcome × Nat × Arrays × Console :=
  (x.1, x.2.steps, x.2.state.heap.arrays, x.2.state.console)

/-- Two runs that go on from states that mirror each other, or that end alike. -/
def Abreast {σ τ : Type} (R : Nat → Nat → Prop) : Progress σ → Progress τ → Prop
  | .running r, .running r' => Mirrored R r.state r'.state ∧ r.steps = r'.steps
  | .ended outcome r, .ended outcome' r' => summary (outcome, r) = summary (outcome', r')
  | _, _ => False

section

variable {σ τ : Type} {p p' : Image} {R : Nat → Nat → Prop} {m m' : Method} {s t : State}

theorem Abreast.ofStep {r r' : EStateM.Result Fault State Unit} (h : ResultMirror R r r')
    (steps : Nat) (seen : σ) (seen' : τ) :
    Abreast R (Progress.ofStep steps seen r) (Progress.ofStep steps seen' r') := by
  cases r with
  | ok _ s =>
    cases r' with
    | ok _ t => exact ⟨h, rfl⟩
    | error _ _ => exact h.elim
  | error e s =>
    cases r' with
    | ok _ _ => exact h.elim
    | error e' t =>
      obtain ⟨rfl, harrays, hconsole⟩ := h
      simp only [Progress.ofStep, Abreast, summary, harrays, hconsole]

theorem Mirrored.leave (h : Mirrored R s t) (hm : MethodMirror p p' R m m') (steps : Nat) (seen : σ)
    (seen' : τ) : Abreast R (Progress.ofLeave steps seen (leave m s))
      (Progress.ofLeave steps seen' (leave m' t)) := by
  obtain ⟨method, callers, rfl, _, hcs⟩ := h
  have hreturns : m'.returnsValue = m.returnsValue := congrArg Ty.isValue hm.returnType.symm
  obtain ⟨stack, frame, cs, heap, console⟩ := s
  unfold Machine.leave
  dsimp only [State.veil] at hcs ⊢
  rw [hreturns, hm.name]
  by_cases hdepth : stack.size - frame.base ≠ if m.returnsValue then 1 else 0
  · rw [if_pos hdepth, if_pos hdepth]
    rfl
  · rw [if_neg hdepth, if_neg hdepth]
    cases hcs with
    | nil => rfl
    | cons hframe hcs =>
      obtain ⟨method', rfl, hR⟩ := hframe
      exact ⟨⟨method', _, rfl, hR, hcs⟩, rfl⟩

variable {hosts : Hosts} {limit : Option Nat} {o : Observer σ} {o' : Observer τ}

theorem advance_pastEnd {u : Setup} {s : State} {steps : Nat} {seen : σ}
    (hm : u.image.methods[s.frame.method]? = some m) (hi : m.code[s.frame.pc]? = none) :
    advance u o ⟨s, steps, seen⟩ =
      .ended (.error (.invalidProgram (.pastEnd m.name))) ⟨s, steps, seen⟩ := by
  unfold advance
  dsimp only
  rw [hm]
  dsimp only
  rw [hi]

/-- States that mirror each other take the same step. -/
theorem Mirrored.advance (h : Mirrored R s t) (hp : Mirror p p' R) (steps : Nat) (seen : σ)
    (seen' : τ) : Abreast R (advance ⟨p, hosts, limit⟩ o ⟨s, steps, seen⟩)
      (advance ⟨p', hosts, limit⟩ o' ⟨t, steps, seen'⟩) := by
  obtain ⟨method, callers, ht, hR, hcs⟩ := id h
  obtain ⟨m, m', hm, hm', hcode⟩ := hp.methods hR
  have hmt : p'.methods[t.frame.method]? = some m' := by
    rw [ht]
    exact hm'
  have hpc : t.frame.pc = s.frame.pc := by
    rw [ht]
    rfl
  have hnext : Mirrored R s.next t.next := by
    rw [ht]
    exact ⟨method, callers, rfl, hR, hcs⟩
  have hrel := hcode.code s.frame.pc
  generalize hi : m.code[s.frame.pc]? = found, hi' : m'.code[s.frame.pc]? = found' at hrel
  rw [← hpc] at hi'
  cases hrel with
  | none =>
    rw [advance_pastEnd hm hi, advance_pastEnd hmt hi', hcode.name, ht]
    rfl
  | @some i i' hinstr =>
    cases hlim : Setup.exceeded ⟨p, hosts, limit⟩ (steps + 1) with
    | some bound =>
      have hlim' : Setup.exceeded ⟨p', hosts, limit⟩ (steps + 1) = some bound := hlim
      rw [advance_exceeded hm hi hlim, advance_exceeded hmt hi' hlim', ht]
      rfl
    | none =>
      have hlim' : Setup.exceeded ⟨p', hosts, limit⟩ (steps + 1) = none := hlim
      by_cases hret : i = .ret
      · obtain rfl : i' = .ret := by
          cases hinstr with
          | same _ => exact hret
          | _ => cases hret
        subst hret
        rw [advance_ret hm hi hlim, advance_ret hmt hi' hlim']
        exact hnext.leave hcode _ _ _
      · have hret' : i' ≠ .ret := by
          rintro rfl
          cases hinstr
          exact hret rfl
        rw [advance_step hm hi hlim hret, advance_step hmt hi' hlim' hret']
        refine Abreast.ofStep ?_ _ _ _
        by_cases hcall : ∃ id argc, i = .call id argc
        · obtain ⟨id, argc, rfl⟩ := hcall
          cases hinstr with
          | same hn => cases hn
          | call hid _ => exact hnext.call hp hcode.name hid argc
        · have hcall : ∀ id argc, i ≠ .call id argc := fun id argc heq => hcall ⟨id, argc, heq⟩
          rw [← hinstr.step_eq hcode.name hcall]
          exact hnext.step hcall

/-- States that mirror each other take the same steps. -/
theorem Mirrored.go (hp : Mirror p p' R) :
    ∀ (k : Nat) {s t : State} {steps : Nat} {seen : σ} {seen' : τ}, Mirrored R s t →
      Abreast R (go ⟨p, hosts, limit⟩ o k ⟨s, steps, seen⟩)
        (go ⟨p', hosts, limit⟩ o' k ⟨t, steps, seen'⟩) := by
  intro k
  induction k with
  | zero => exact fun h => ⟨h, rfl⟩
  | succ k ih =>
    intro s t steps seen seen' h
    have hstep : Abreast R (Machine.advance ⟨p, hosts, limit⟩ o ⟨s, steps, seen⟩)
        (Machine.advance ⟨p', hosts, limit⟩ o' ⟨t, steps, seen'⟩) := h.advance hp steps seen seen'
    rw [Machine.go, Machine.go]
    generalize Machine.advance ⟨p, hosts, limit⟩ o ⟨s, steps, seen⟩ = one,
      Machine.advance ⟨p', hosts, limit⟩ o' ⟨t, steps, seen'⟩ = two at hstep
    cases one with
    | ended outcome r =>
      cases two with
      | ended outcome' r' => exact hstep
      | running r' => exact hstep.elim
    | running r =>
      cases two with
      | ended outcome' r' => exact hstep.elim
      | running r' =>
        obtain ⟨state, steps, seen⟩ := r
        obtain ⟨state', steps', seen'⟩ := r'
        obtain ⟨hmirrored, rfl⟩ := hstep
        exact ih hmirrored

/-- Programs whose images mirror each other run alike. -/
theorem Mirror.runProgram (hp : Mirror p p' R) (hosts : Hosts) (limit : Option Nat)
    (o : Observer σ) (o' : Observer τ) (seen : σ) (seen' : τ) (console : Console) (fuel : Nat) :
    (runProgram ⟨p, hosts, limit⟩ o seen console fuel).map summary =
      (runProgram ⟨p', hosts, limit⟩ o' seen' console fuel).map summary := by
  have hentry := hp.entry
  unfold Machine.runProgram startEntry start
  dsimp only
  generalize p.entry = entry, p'.entry = entry' at hentry
  cases hentry with
  | none => rfl
  | @some id id' hid =>
    dsimp only
    rcases hp.callee hid ([] : List Value).length with ⟨e, hc, hc'⟩ | ⟨c, c', hc, hc', hcode⟩
    · rw [hc, hc']
      rfl
    · rw [hc, hc']
      dsimp only
      generalize hs : State.mk #[] (newFrame c .bare 0 id []).1 [] (newFrame c .bare 0 id []).2
        console = s
      generalize ht : State.mk #[] (newFrame c' .bare 0 id' []).1 []
        (newFrame c' .bare 0 id' []).2 console = t
      have hstart : Mirrored R s t := by
        rw [← hs, ← ht, hcode.newFrame .bare 0 id]
        exact ⟨id', [], rfl, hid, .nil⟩
      have hgo : Abreast R (Machine.go ⟨p, hosts, limit⟩ o fuel ⟨s, 0, seen⟩)
          (Machine.go ⟨p', hosts, limit⟩ o' fuel ⟨t, 0, seen'⟩) := hstart.go hp fuel
      generalize Machine.go ⟨p, hosts, limit⟩ o fuel ⟨s, 0, seen⟩ = one,
        Machine.go ⟨p', hosts, limit⟩ o' fuel ⟨t, 0, seen'⟩ = two at hgo
      cases one with
      | ended outcome r =>
        cases two with
        | ended outcome' r' => exact congrArg some hgo
        | running r' => exact hgo.elim
      | running r =>
        cases two with
        | ended outcome' r' => exact hgo.elim
        | running r' => rfl

end

end Quill.Machine
