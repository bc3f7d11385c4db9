import Quill.Proofs.Machine.Course
import Quill.Proofs.Machine.Isolation
import Quill.Proofs.Machine.Veil

/-! # What goes in comes out

An instruction moves control of one frame (`Turn`): on to another position of its code, or out of
the method with a return.  So where the code of a method has a gate (`Gate`), what has been let in
is what has been let out and what is still inside, whatever the other frames have done meanwhile,
be they of the same method.  When a call has ended well no frame is left, and the two counts agree
(`Gate.balance`). -/

namespace Quill.Machine

open Code

/-! ### Control -/

/-- The truth on top of the operand stack. -/
def State.truth? (s : State) : Option Bool :=
  match s.stack.back? with
  | some (.int v) => some (v ≠ 0)
  | _ => none

/-- From an instruction of the current frame control goes on at a position; a branch on a truth goes
by the top operand. -/
structure GoesOn (m : Method) (i : Instr) (s : State) (pc : Nat) : Prop where
  leads : Leads m i (s.frame.pc + 1) pc
  decided : ∀ label, i = .branchIfTrue label → ∃ c, s.truth? = some c ∧
    (c = true → m.position? label = some pc) ∧ (c = false → pc = s.frame.pc + 1)

section

variable {σ : Type} {u : Setup} {o : Observer σ}

/-- What an instruction makes of the frames of a state.  The current frame has gone on, perhaps under
a new one, which starts at the beginning of its method; or it has returned. -/
inductive Turn (u : Setup) (s : State) (fs : List Frame) : Prop
  | goes {m : Method} {i : Instr} {f : Frame} (new : List Frame) : At u s.frame m i → i ≠ .ret →
    GoesOn m i s f.pc → f.method = s.frame.method → (∀ g ∈ new, g.pc = 0) →
    fs = new ++ f :: s.callers → Turn u s fs
  | returns {m : Method} : At u s.frame m .ret → fs = s.callers → Turn u s fs

theorem popInt_ok {m : Method} {s s' : State} {v : Int64} (h : popInt m s = .ok v s') :
    s.stack.back? = some (.int v) ∧ s'.frame = s.frame := by
  unfold popInt at h
  rw [bind_run] at h
  unfold pop at h
  by_cases hbase : s.stack.size ≤ s.frame.base
  · rw [if_pos hbase] at h
    cases h
  · rw [if_neg hbase] at h
    cases hback : s.stack.back? with
    | none =>
      rw [hback] at h
      cases h
    | some w =>
      rw [hback] at h
      cases w with
      | int k =>
        cases h
        exact ⟨rfl, rfl⟩
      | float x => cases h
      | str x => cases h
      | array ref => cases h

/-- A branch on a truth goes to its label where the truth holds, and else falls through. -/
theorem branchIfTrue_decided {p : Image} {hosts : Hosts} {m : Method} {label : Nat} {s s' : State}
    (h : step p hosts m (.branchIfTrue label) s = .ok () s') :
    ∃ c, s.truth? = some c ∧ (c = true → m.position? label = some s'.frame.pc) ∧
      (c = false → s'.frame.pc = s.frame.pc) := by
  rw [step, bind_run] at h
  cases hpop : popInt m s with
  | error e s₁ =>
    rw [hpop] at h
    cases h
  | ok v s₁ =>
    rw [hpop] at h
    obtain ⟨hback, hframe⟩ := popInt_ok hpop
    refine ⟨decide (v ≠ 0), by rw [State.truth?, hback], fun htrue => ?_, fun hfalse => ?_⟩
    · dsimp only at h
      rw [if_pos (of_decide_eq_true htrue)] at h
      exact jump_pc h
    · dsimp only at h
      rw [if_neg (of_decide_eq_false hfalse)] at h
      cases h
      rw [hframe]

/-- An instruction that is carried out turns the frames, and one that ends the run well is the
return of the last of them. -/
theorem advance_turn {r : Run σ} (ho : Orderly r.state) {i : Instr} (hdue : u.due r = some i) :
    (advance u o r).Holds (fun r' => Turn u r.state r'.state.frames) fun outcome _ =>
      ∀ v, outcome = .ok v → Turn u r.state [] := by
  obtain ⟨hlim, m, hat⟩ := due_eq_some.mp hdue
  obtain ⟨low, ops, f, cs, n, w, hs, hf, hadv⟩ := ho.advances (u := u) (o := o)
  obtain ⟨s, steps, seen⟩ := r
  obtain rfl : s = _ := hs
  cases hnext : advance u o ⟨.of low ops f cs n w, steps, seen⟩ with
  | ended outcome r' =>
    rw [hnext] at hadv
    cases hadv with
    | done hret _ hcs _ => exact fun v _ => .returns hret hcs.symm
    | failed _ _ => exact fun v hv => by cases hv
  | running r' =>
    rw [hnext] at hadv
    cases hadv with
    | @moved m' i' ops' f' _ _ _ hat' hret _ hfollows _ _ hs' =>
      refine .goes [] hat' hret ⟨hfollows.pc, ?_⟩ hfollows.method (by simp)
        (by rw [hs']; rfl)
      rintro label rfl
      rw [advance_step hat'.1 hat'.2 hlim hret] at hnext
      cases hstep : step u.image u.hosts m' (.branchIfTrue label) (State.next (.of low ops f cs n w))
        with
      | error e s₁ =>
        rw [hstep] at hnext
        cases hnext
      | ok a s₁ =>
        rw [hstep] at hnext
        obtain rfl := Progress.running.inj hnext
        obtain ⟨c, hc, htrue, hfalse⟩ := branchIfTrue_decided hstep
        rw [show s₁.frame = f' from congrArg State.frame hs'] at htrue hfalse
        exact ⟨c, hc, htrue, hfalse⟩
    | @entered m' c id _ args rest locals _ _ hat' _ _ hs' =>
      refine .goes (f := f.to (f.pc + 1)) [⟨id, args.reverse.toArray, locals, 0,
        (low ++ rest.reverse).length⟩] hat' (by simp) ⟨.next rfl _, ?_⟩ rfl (by simp)
        (by rw [hs']; rfl)
      rintro label ⟨⟩
    | left hret _ _ hframes => exact .returns hret hframes

end

/-! ### Gates -/

/-- A part of the code of a method, and the instructions that let control into it and out of it.
Whatever is inside after an instruction has been inside or has entered, and has not left. -/
structure Gate (u : Setup) (id : Nat) (inside : Nat → Prop) (enters leaves : State → Prop) :
    Prop where
  start : ¬ inside 0
  apart : ∀ {s}, enters s → ¬ inside s.frame.pc
  goes : ∀ {s m i pc}, s.frame.method = id → At u s.frame m i → i ≠ .ret → GoesOn m i s pc →
    (leaves s → inside s.frame.pc ∨ enters s) ∧
      (inside pc ↔ (inside s.frame.pc ∨ enters s) ∧ ¬ leaves s)
  returns : ∀ {s m}, s.frame.method = id → At u s.frame m .ret →
    (leaves s ↔ inside s.frame.pc ∨ enters s)
  others : ∀ {s}, s.frame.method ≠ id → ¬ enters s ∧ ¬ leaves s

section

variable {σ : Type} {u : Setup} {o : Observer σ} {id : Nat} {inside : Nat → Prop}
  {enters leaves : State → Prop} [DecidablePred inside]

/-- How many of the frames are inside. -/
def held (id : Nat) (inside : Nat → Prop) [DecidablePred inside] (fs : List Frame) : Nat :=
  fs.countP fun f => f.method = id ∧ inside f.pc

theorem held_cons (f : Frame) (fs : List Frame) :
    held id inside (f :: fs) = held id inside fs + if f.method = id ∧ inside f.pc then 1 else 0 := by
  unfold held
  rw [List.countP_cons]
  simp

theorem held_new (h : Gate u id inside enters leaves) {new : List Frame}
    (hnew : ∀ g ∈ new, g.pc = 0) (fs : List Frame) :
    held id inside (new ++ fs) = held id inside fs := by
  unfold held
  rw [List.countP_append, Nat.add_eq_right, List.countP_eq_zero]
  intro g hg
  simp [hnew g hg, h.start]

theorem start_pc {p : Image} {heap : Heap} {console : Console} {method : Nat} {args : List Value}
    {s : State} (h : start p heap console method args = .ok s) : ∀ g ∈ s.frames, g.pc = 0 := by
  unfold start at h
  split at h
  · cases h
  · cases h
    intro g hg
    obtain rfl := List.mem_singleton.mp hg
    rfl

variable [DecidablePred enters] [DecidablePred leaves]

/-- What one instruction lets in is let out by it or is inside then. -/
theorem Gate.turn (h : Gate u id inside enters leaves) {s : State} {fs : List Frame}
    (ht : Turn u s fs) :
    held id inside s.frames + (if enters s then 1 else 0) =
      held id inside fs + if leaves s then 1 else 0 := by
  rw [State.frames, held_cons]
  by_cases hid : s.frame.method = id
  · have hapart := h.apart (s := s)
    cases ht with
    | @goes m i f new hat hret hgoes hmethod hnew hframes =>
      obtain ⟨hleaves, hinside⟩ := h.goes hid hat hret hgoes
      rw [hframes, held_new h hnew, held_cons]
      simp only [hid, hmethod, hinside, true_and]
      by_cases henters : enters s
      · have hout := hapart henters
        by_cases hleft : leaves s
        · simp [henters, hout, hleft]
        · simp [henters, hout, hleft]
      · by_cases hleft : leaves s
        · have hin := (hleaves hleft).resolve_right henters
          simp [henters, hin, hleft]
        · simp [henters, hleft]
    | returns hat hframes =>
      have hleaves := h.returns hid hat
      rw [hframes]
      simp only [hid, hleaves, true_and]
      by_cases henters : enters s
      · have hout := hapart henters
        simp [henters, hout]
      · simp [henters]
  · obtain ⟨henters, hleaves⟩ := h.others hid
    cases ht with
    | @goes m i f new hat hret hgoes hmethod hnew hframes =>
      rw [hframes, held_new h hnew, held_cons]
      simp [hid, hmethod, henters, hleaves]
    | returns hat hframes =>
      rw [hframes]
      simp [hid, henters, hleaves]

/-- When a call has ended well, what has been let in has been let out: as long as it goes on, the
difference is inside. -/
theorem Gate.balance {c : Call} {limit : Option Nat}
    (h : Gate ⟨c.image, c.hosts, limit⟩ id inside enters leaves) {fuel : Nat} {v : Option Value}
    {r : Run LabelCounter} (hrun : c.run limit fuel = .ended (.ok v) r) :
    (c.course limit fuel).countP (fun s => enters s) =
      (c.course limit fuel).countP fun s => leaves s := by
  have hcourse := c.course_invariant limit
    (I := fun past r => Orderly r.state ∧ past.countP (fun s => enters s) =
      past.countP (fun s => leaves s) + held id inside r.state.frames)
    (Q := fun past outcome _ => ∀ v, outcome = .ok v →
      past.countP (fun s => enters s) = past.countP fun s => leaves s)
    (fun s hs => ?_) (fun e s v hv => by cases hv) (fun past r i hr hdue => ?_)
    (fun past r e steps hr _ v hv => by cases hv) fuel
  · rw [hrun] at hcourse
    exact hcourse v rfl
  · refine ⟨orderly_start hs, ?_⟩
    have hnone := held_new h (start_pc hs) []
    rw [List.append_nil] at hnone
    rw [hnone]
    rfl
  · obtain ⟨horderly, hcount⟩ := hr
    have hturn := advance_turn (o := LabelCounter.observer) horderly hdue
    have hkeep := orderly_advance (u := ⟨c.image, c.hosts, limit⟩) (o := LabelCounter.observer)
      horderly
    simp only [List.countP_append, List.countP_singleton, decide_eq_true_eq]
    generalize advance _ _ r = next at hturn hkeep ⊢
    cases next with
    | running r' =>
      have hmoved := h.turn hturn
      exact ⟨hkeep, by omega⟩
    | ended outcome r' =>
      intro v hv
      have hlast := h.turn (hturn v hv)
      rw [show held id inside [] = 0 from rfl] at hlast
      omega

end

end Quill.Machine
