import Quill.Proofs.Machine.Isolation

/-! # Stack effects at work

The table of stack effects says of each instruction how many operands it takes and how many it
leaves.  In every state that a run of an arbitrary image comes to, an instruction that succeeds does
just that within the region of its frame, and one that finds fewer operands fails
(`stack_effect_accords`).  A call takes its arguments at once, and what it leaves is there when the
callee has returned. -/

namespace Quill.Machine

open Code

/-- The state with its frame at another position. -/
def State.to (s : State) (pc : Nat) : State := { s with frame := s.frame.to pc }

/-- The operands have changed as the effect says.  The frame had as many of its own as are taken,
the height of the stack has changed by the difference, and what was below the operands taken is
still there. -/
structure Accords (e : Code.Effect) (s s' : State) : Prop where
  held : s.frame.base + e.pops ≤ s.stack.size
  size : (s'.stack.size : Int) = s.stack.size + e.delta
  below : s'.stack.toList.take (s.stack.size - e.pops) =
    s.stack.toList.take (s.stack.size - e.pops)

/-- A call has led from `s` to `s'` as the effect says.  The caller had as many operands of its own
as are taken, and they are gone from the stack.  When a run from `s'` has given the caller its frame
back, there are as many operands more as the effect leaves. -/
structure CallAccords {σ : Type} (u : Setup) (o : Observer σ) (e : Code.Effect) (s s' : State) :
    Prop where
  held : s.frame.base + e.pops ≤ s.stack.size
  taken : s'.stack.toList = s.stack.toList.take (s.stack.size - e.pops)
  returned : ∀ steps seen k q, go u o k ⟨s', steps, seen⟩ = .running q →
    Lives u o s' ⟨s', steps, seen⟩ k → q.state.callers.length < s'.callers.length →
      q.state.frames = s.frames ∧
        ∃ result, q.state.stack.toList = s'.stack.toList ++ result ∧ result.length = e.pushes

section

variable {low ops : List Value} {f : Frame} {cs : List Frame} {n : Nat} {w : World}

theorem State.take_stack_of {pops : Nat} (h : pops ≤ ops.length) :
    (State.of low ops f cs n w).stack.toList.take ((State.of low ops f cs n w).stack.size - pops) =
      low ++ (ops.drop pops).reverse := by
  have hsplit :
      low ++ ops.reverse = (low ++ (ops.drop pops).reverse) ++ (ops.take pops).reverse := by
    rw [List.append_assoc, ← List.reverse_append, List.take_append_drop]
  rw [State.size_of, State.stack_of, hsplit]
  refine List.take_left' ?_
  rw [List.length_append, List.length_reverse, List.length_drop]
  omega

theorem Moved.accords {hosts : Hosts} {rel : Frame → Frame → Prop} {e : Code.Effect}
    (hf : f.base = low.length) {α : Type} {a : α} {s' : State}
    (h : Moved hosts low cs rel e.pops e.pushes f ops (.ok a s')) :
    Accords e (.of low ops f cs n w) s' := by
  obtain ⟨new, f', n', w', rfl, -, hle, hlen⟩ := h
  have hbase : (State.of low ops f cs n w).frame.base = low.length := hf
  refine ⟨?_, ?_, ?_⟩
  · rw [hbase, State.size_of]
    omega
  · rw [State.size_of, State.size_of, List.length_append, List.length_drop, hlen, Code.Effect.delta]
    omega
  · rw [State.take_stack_of hle, State.size_of, State.stack_of, List.reverse_append,
      ← List.append_assoc]
    refine List.take_left' ?_
    rw [List.length_append, List.length_reverse, List.length_drop]
    omega

section

variable {σ : Type} {u : Setup} {o : Observer σ}

/-- When the frame on top of a state is there no more, it has returned. -/
theorem returns_of_lt {s₁ : State} {c : Method}
    (hc : u.image.methods[s₁.frame.method]? = some c) (ho : Orderly s₁) {steps k : Nat} {seen : σ}
    {q : Run σ} (hgo : go u o k ⟨s₁, steps, seen⟩ = .running q)
    (hlive : Lives u o s₁ ⟨s₁, steps, seen⟩ k)
    (hback : q.state.callers.length < s₁.callers.length) :
    Returns u o c s₁ ⟨s₁, steps, seen⟩ k q := by
  have hspares := spares_go (o := o) hc k ⟨s₁, steps, seen⟩ (.refl s₁) ho hlive
  rw [hgo] at hspares
  rcases hspares with hspares | hreturned
  · exact absurd hback (Nat.not_lt.mpr hspares.depth)
  · exact hreturned

theorem Entered.accords (hf : f.base = low.length) (ho : Orderly (.of low ops f cs n w))
    {id argc : Nat} {s' : State} (h : Entered u.image low cs id argc f ops (.ok () s')) :
    CallAccords u o ((Instr.call id argc).effect u.image) (.of low ops f cs n w) s' := by
  obtain ⟨c, args, rest, locals, n', w', hc, rfl, rfl, rfl⟩ := h
  have hbase : (State.of low (args ++ rest) f cs n w).frame.base = low.length := hf
  rw [effect_call hc]
  refine ⟨?_, ?_, fun steps seen k q hgo hlive hback => ?_⟩
  · rw [hbase, State.size_of, List.length_append]
    dsimp only
    omega
  · rw [State.take_stack_of (by simp), List.drop_left, State.stack_of, List.reverse_nil,
      List.append_nil]
  · obtain ⟨_, last, _, _, _, hreturned⟩ := returns_of_lt (callee_spec hc).1
      (orderly_entered ho.bases hf rfl) hgo hlive hback
    refine ⟨hreturned.frames, last.state.operands, hreturned.stack.trans ?_, hreturned.length⟩
    congr 1
    exact List.take_of_length_le (Nat.le_of_eq (by simp [State.of]))

end

end

section

variable {σ : Type} {u : Setup} {o : Observer σ} {s s' : State} {m : Method}

theorem Orderly.to (h : Orderly s) (pc : Nat) : Orderly (s.to pc) := by
  refine ⟨pairwise_base_congr (s.frame.base_to pc) h.bases, fun g hg => ?_⟩
  rcases List.mem_cons.mp hg with rfl | hg
  · exact h.reach s.frame (List.mem_cons_self ..)
  · exact h.reach g (List.mem_cons_of_mem _ hg)

theorem Orderly.step_accords (ho : Orderly s) {i : Instr} (hret : i ≠ .ret)
    (hcall : ∀ id argc, i ≠ .call id argc) (h : step u.image u.hosts m i s = .ok () s') :
    Accords (i.effect u.image) s s' := by
  obtain ⟨low, ops, f, cs, n, w, rfl, hf⟩ := ho.parts
  have hmoved : Moved u.hosts low cs (Frame.Follows m i) _ _ f ops
      (step u.image u.hosts m i (.of low ops f cs n w)) :=
    step_moves u.image hret hcall ops f n w hf
  rw [h] at hmoved
  exact hmoved.accords hf

theorem Orderly.call_accords (ho : Orderly s) {id argc : Nat}
    (h : step u.image u.hosts m (.call id argc) s = .ok () s') :
    CallAccords u o ((Instr.call id argc).effect u.image) s s' := by
  obtain ⟨low, ops, f, cs, n, w, rfl, hf⟩ := ho.parts
  have hentered : Entered u.image low cs id argc f ops
      (step u.image u.hosts m (.call id argc) (.of low ops f cs n w)) :=
    call_enters u.image hf ops id argc n w
  rw [h] at hentered
  exact hentered.accords hf ho

/-- An instruction that succeeds has found its operands in the region of its frame. -/
theorem Orderly.step_held (ho : Orderly s) {i : Instr} (hret : i ≠ .ret)
    (h : step u.image u.hosts m i s = .ok () s') :
    s.frame.base + (i.effect u.image).pops ≤ s.stack.size := by
  by_cases hcall : ∃ id argc, i = .call id argc
  · obtain ⟨id, argc, rfl⟩ := hcall
    exact (ho.call_accords (o := Observer.blind) h).held
  · exact (ho.step_accords hret (fun id argc hi => hcall ⟨id, argc, hi⟩) h).held

/-- **Declared stack effects are those of execution.**  In a state that a run of an image comes to,
at whatever position of its code, an instruction other than a return fails if the region of the
frame has fewer operands than its effect takes; if it succeeds, then a call accords with its effect
from the call to the return, and each other instruction at once. -/
theorem stack_effect_accords {r : Run σ} (h : Reached u o r) (pc : Nat) (m : Method) (i : Instr)
    (hret : i ≠ .ret) :
    let s := r.state.to pc
    let e := i.effect u.image
    (s.stack.size - s.frame.base < e.pops →
        ∃ fault s', step u.image u.hosts m i s = .error fault s') ∧
      ∀ s', step u.image u.hosts m i s = .ok () s' →
        (∀ id argc, i = .call id argc → e.pops = argc ∧ CallAccords u o e s s') ∧
          ((∀ id argc, i ≠ .call id argc) → Accords e s s') := by
  intro s e
  have ho : Orderly s := h.orderly.to pc
  refine ⟨fun hfew => ?_, fun s' hok => ?_⟩
  · cases hstep : step u.image u.hosts m i s with
    | error fault s' => exact ⟨fault, s', rfl⟩
    | ok a s' =>
      have hheld : s.frame.base + e.pops ≤ s.stack.size := ho.step_held hret hstep
      omega
  · refine ⟨fun id argc hi => ?_, fun hcall => ho.step_accords hret hcall hok⟩
    subst hi
    exact ⟨effect_call_pops .., ho.call_accords hok⟩

end

/-- The call of the callee in `callImage` takes one operand and leaves one when it has returned, and
the addition after it takes two and leaves one. -/
theorem callImage_accords :
    ∃ s₁ s₂,
      step callImage [] callImage.methods[0] (.call 1 1) (callBefore.state.to 3) = .ok () s₁ ∧
      CallAccords callSetup .blind ⟨1, 1⟩ (callBefore.state.to 3) s₁ ∧
      step callImage [] callImage.methods[0] (.arith .add .integer) (callAfter.state.to 4) =
        .ok () s₂ ∧ Accords ⟨2, 1⟩ (callAfter.state.to 4) s₂ := by
  have hstart : start callImage .bare (.ofLines []) 0 [] =
      .ok (callRun 0 #[] ⟨0, #[], #[], 0, 0⟩ []).state := rfl
  have hbefore : Reached callSetup .blind callBefore :=
    ⟨.bare, .ofLines [], 0, [], _, (), 2, hstart, .inl rfl⟩
  have hafter : Reached callSetup .blind callAfter :=
    ⟨.bare, .ofLines [], 0, [], _, (), 5, hstart, .inl rfl⟩
  have hcall :=
    (stack_effect_accords hbefore 3 callImage.methods[0] (.call 1 1) (by decide)).2 _ rfl
  have hadd := (stack_effect_accords hafter 4 callImage.methods[0] (.arith .add .integer)
    (by decide)).2 _ rfl
  exact ⟨_, _, rfl, (hcall.1 1 1 rfl).2, rfl, hadd.2 fun _ _ hi => by cases hi⟩

end Quill.Machine
