import Quill.Proofs.Machine.Regions

/-! # Frames are isolated

All frames share one operand stack, and the code of an image may be anything.  Still the base of a
frame is never below those of older frames nor above the top of the stack (`Orderly`), and while a
callee runs, with all that it calls, the older frames and the operands below its base stay as the
call has left them (`Spares`).  Its return gives the caller back its frame and its operands without
the arguments, and with the result, which is what the callee has left of its own operands
(`frames_isolated`). -/

namespace Quill.Machine

open Code

/-- The frames of a state, the youngest first. -/
def State.frames (s : State) : List Frame := s.frame :: s.callers

/-- The operands of the youngest frame, the top last. -/
def State.operands (s : State) : List Value := s.stack.toList.drop s.frame.base

/-- The bases of the frames do not decrease towards the younger frames, and the stack reaches all of
them. -/
structure Orderly (s : State) : Prop where
  bases : s.frames.Pairwise fun younger older => older.base ≤ younger.base
  reach : ∀ f ∈ s.frames, f.base ≤ s.stack.size

section

variable {low ops : List Value} {f : Frame} {cs : List Frame} {n : Nat} {w : World}

@[simp] theorem State.frames_of : (State.of low ops f cs n w).frames = f :: cs := rfl

@[simp] theorem State.stack_of :
    (State.of low ops f cs n w).stack.toList = low ++ ops.reverse := rfl

theorem State.size_of : (State.of low ops f cs n w).stack.size = low.length + ops.length := by
  simp [State.of]

theorem State.operands_of (hf : f.base = low.length) :
    (State.of low ops f cs n w).operands = ops.reverse := List.drop_left' hf.symm

/-- An orderly state has its operands above those of the frames that wait. -/
theorem Orderly.parts {s : State} (h : Orderly s) :
    ∃ low ops f cs n w, s = .of low ops f cs n w ∧ f.base = low.length := by
  obtain ⟨stack, f, cs, ⟨as, n⟩, console⟩ := s
  have hle : f.base ≤ stack.size := h.reach f (List.mem_cons_self ..)
  refine ⟨stack.toList.take f.base, (stack.toList.drop f.base).reverse, f, cs, n, ⟨as, console⟩,
    ?_, ?_⟩
  · simp [State.of]
  · simp [hle]

/-- A state is orderly if its frames are, and its youngest frame has its base within the stack. -/
theorem orderly_of (hbases : (f :: cs).Pairwise fun younger older => older.base ≤ younger.base)
    (hf : f.base ≤ low.length) : Orderly (.of low ops f cs n w) := by
  refine ⟨hbases, fun g hg => ?_⟩
  rw [State.size_of]
  rcases List.mem_cons.mp hg with rfl | hg
  · omega
  · have := (List.pairwise_cons.mp hbases).1 g hg
    omega

/-- The youngest frame is replaced by another one with the same base. -/
theorem pairwise_base_congr {f' : Frame} (hbase : f'.base = f.base)
    (h : (f :: cs).Pairwise fun younger older => older.base ≤ younger.base) :
    (f' :: cs).Pairwise fun younger older => older.base ≤ younger.base := by
  obtain ⟨hf, hcs⟩ := List.pairwise_cons.mp h
  refine List.pairwise_cons.mpr ⟨fun g hg => ?_, hcs⟩
  rw [hbase]
  exact hf g hg

/-- A frame that starts on top of the stack comes above the others. -/
theorem orderly_entered (hbases : (f :: cs).Pairwise fun younger older => older.base ≤ younger.base)
    (hf : f.base = low.length) {left : List Value} {g : Frame}
    (hg : g.base = (low ++ left).length) : Orderly (.of (low ++ left) [] g (f :: cs) n w) := by
  refine orderly_of (List.pairwise_cons.mpr ⟨fun older hmem => ?_, hbases⟩) (Nat.le_of_eq hg)
  have hle : older.base ≤ f.base := by
    rcases List.mem_cons.mp hmem with rfl | hmem
    · exact Nat.le_refl _
    · exact (List.pairwise_cons.mp hbases).1 older hmem
  rw [hg, List.length_append]
  omega

end

section

variable {σ : Type} {u : Setup} {o : Observer σ}

theorem Orderly.advances {r : Run σ} (h : Orderly r.state) :
    ∃ low ops f cs n w, r.state = .of low ops f cs n w ∧ f.base = low.length ∧
      Advances u low ops f cs (advance u o r) := by
  obtain ⟨s, steps, seen⟩ := r
  obtain ⟨low, ops, f, cs, n, w, rfl, hf⟩ := h.parts
  exact ⟨low, ops, f, cs, n, w, rfl, hf, advance_cases hf n w steps seen⟩

/-- A step keeps the frames in order, also when it ends the run. -/
theorem orderly_advance {r : Run σ} (h : Orderly r.state) :
    (advance u o r).Holds (fun r => Orderly r.state) fun _ r => Orderly r.state := by
  obtain ⟨low, ops, f, cs, n, w, hs, hf, hadv⟩ := h.advances (u := u) (o := o)
  have hbases := h.bases
  rw [hs, State.frames_of] at hbases
  generalize advance u o r = next at hadv ⊢
  cases hadv with
  | @moved _ _ _ f' _ _ _ _ _ _ hfollows _ _ hs' =>
    have hbase : f'.base = f.base := hfollows.base
    show Orderly _
    rw [hs']
    exact orderly_of (pairwise_base_congr hbase hbases) (Nat.le_of_eq (hbase.trans hf))
  | @entered _ _ _ _ args rest _ _ _ _ _ _ hs' =>
    show Orderly _
    rw [hs']
    exact orderly_entered (pairwise_base_congr (f.base_to (f.pc + 1)) hbases) hf rfl
  | left _ _ hstack hframes =>
    refine ⟨?_, fun g hg => ?_⟩
    · rw [State.frames, hframes]
      exact (List.pairwise_cons.mp hbases).2
    · rw [State.frames, hframes] at hg
      rw [hstack]
      have hle := (List.pairwise_cons.mp hbases).1 g hg
      simp only [List.size_toArray, List.length_append]
      omega
  | done _ _ hcs hs' =>
    show Orderly _
    rw [hs']
    exact orderly_of (List.pairwise_singleton ..) (Nat.le_of_eq hf)
  | @failed _ _ pc _ _ _ hs' _ =>
    show Orderly _
    rw [hs']
    exact orderly_of (pairwise_base_congr (f.base_to pc) hbases) (Nat.le_of_eq hf)

/-! ### While a callee runs -/

/-- The frame on top of `s₁` is still there in `s`, perhaps below younger ones; the frames below it
and the operands below its base are those of `s₁`. -/
structure Spares (s₁ s : State) : Prop where
  frames : ∃ younger g, s.frames = younger ++ g :: s₁.callers ∧ g.method = s₁.frame.method ∧
    g.base = s₁.frame.base
  stack : s.stack.toList.take s₁.frame.base = s₁.stack.toList.take s₁.frame.base

/-- The frame on top of `s₁` has returned: `last` is where it stood, on top of the same frames, and in
`s` these frames are back, with the operands that were below its base, and above them the `count`
operands that it had itself in `last`. -/
structure Returned (count : Nat) (s₁ last s : State) : Prop where
  method : last.frame.method = s₁.frame.method
  base : last.frame.base = s₁.frame.base
  callers : last.callers = s₁.callers
  frames : s.frames = s₁.callers
  stack : s.stack.toList = s₁.stack.toList.take s₁.frame.base ++ last.operands
  length : last.operands.length = count

theorem Spares.refl (s : State) : Spares s s := ⟨⟨[], s.frame, rfl, rfl, rfl⟩, rfl⟩

section

variable {s₁ : State} {low ops : List Value} {f : Frame} {cs : List Frame} {n : Nat} {w : World}

theorem Spares.base_le (h : Spares s₁ (.of low ops f cs n w))
    (ho : Orderly (.of low ops f cs n w)) : s₁.frame.base ≤ f.base := by
  obtain ⟨younger, g, hframes, -, hg⟩ := h.frames
  have hbases := ho.bases
  rw [State.frames_of] at hframes hbases
  rw [← hg]
  have hmem : g ∈ f :: cs := by
    rw [hframes]
    simp
  rcases List.mem_cons.mp hmem with rfl | hmem
  · exact Nat.le_refl _
  · exact (List.pairwise_cons.mp hbases).1 g hmem

theorem Spares.below (h : Spares s₁ (.of low ops f cs n w)) (hbase : s₁.frame.base ≤ low.length) :
    low.take s₁.frame.base = s₁.stack.toList.take s₁.frame.base := by
  rw [← h.stack, State.stack_of, List.take_append_of_le_length hbase]

theorem Spares.above (h : Spares s₁ (.of low ops f cs n w)) (hbase : s₁.frame.base ≤ low.length)
    {f' : Frame} (hmethod : f'.method = f.method) (hf' : f'.base = f.base) (younger : List Frame)
    {s : State} (hframes : s.frames = younger ++ f' :: cs) (hstack : low <+: s.stack.toList) :
    Spares s₁ s := by
  refine ⟨?_, ?_⟩
  · obtain ⟨older, g, hold, hg, hgbase⟩ := h.frames
    rw [State.frames_of] at hold
    rw [hframes]
    cases older with
    | nil =>
      obtain ⟨rfl, rfl⟩ := List.cons.inj hold
      exact ⟨younger, f', rfl, hmethod.trans hg, hf'.trans hgbase⟩
    | cons f₀ older =>
      obtain ⟨rfl, rfl⟩ := List.cons.inj hold
      exact ⟨younger ++ f' :: older, g, by simp, hg, hgbase⟩
  · obtain ⟨rest, hrest⟩ := hstack
    rw [← hrest, List.take_append_of_le_length hbase, h.below hbase]

end

/-- While the frame is there, a step leaves what is below it as it is; the frame is gone after its
return only, which keeps its operands. -/
theorem spares_advance {r : Run σ} {s₁ : State} {c : Method}
    (hc : u.image.methods[s₁.frame.method]? = some c) (h : Spares s₁ r.state)
    (ho : Orderly r.state) :
    (advance u o r).Holds
      (fun r' => Spares s₁ r'.state ∨ At u r.state.frame c .ret ∧
        Returned (valueCount c.returnsValue) s₁ r.state r'.state)
      fun _ r' => Spares s₁ r'.state := by
  obtain ⟨low, ops, f, cs, n, w, hs, hf, hadv⟩ := ho.advances (u := u) (o := o)
  rw [hs] at h ho ⊢
  have hbase : s₁.frame.base ≤ low.length := hf ▸ h.base_le ho
  generalize advance u o r = next at hadv ⊢
  cases hadv with
  | moved _ _ _ hfollows _ _ hs' =>
    refine .inl (h.above hbase hfollows.method hfollows.base [] ?_ ?_)
    · rw [hs', State.frames_of, List.nil_append]
    · rw [hs', State.stack_of]
      exact List.prefix_append ..
  | @entered _ _ _ _ args rest _ _ r' _ _ _ hs' =>
    refine .inl (h.above hbase (f.method_to (f.pc + 1)) (f.base_to (f.pc + 1)) [r'.state.frame]
      ?_ ?_)
    · rw [hs']
      rfl
    · rw [hs', State.stack_of, List.append_assoc]
      exact List.prefix_append ..
  | left hat hlen hstack hframes =>
    obtain ⟨younger, g, hold, hg, hgbase⟩ := h.frames
    rw [State.frames_of] at hold
    cases younger with
    | nil =>
      obtain ⟨rfl, rfl⟩ := List.cons.inj hold
      obtain rfl : c = _ := Option.some.inj (hc.symm.trans (hg ▸ hat.1))
      have hops : (State.of low ops f s₁.callers n w).operands = ops.reverse := State.operands_of hf
      refine .inr ⟨hat, hg, hgbase, rfl, hframes, ?_, ?_⟩
      · rw [hops, hstack, ← h.below hbase, ← hgbase, hf, List.take_length]
      · rw [hops, List.length_reverse, hlen]
    | cons f₀ younger =>
      obtain ⟨rfl, rfl⟩ := List.cons.inj hold
      refine .inl ⟨⟨younger, g, hframes, hg, hgbase⟩, ?_⟩
      rw [hstack, List.take_append_of_le_length hbase, h.below hbase]
  | done _ _ hcs hs' =>
    refine h.above hbase (f.method_to (f.pc + 1)) (f.base_to (f.pc + 1)) [] ?_ ?_
    · rw [hs', State.frames_of, hcs, List.nil_append]
    · rw [hs', State.stack_of]
      exact List.prefix_append ..
  | @failed _ _ pc _ _ _ hs' _ =>
    refine h.above hbase (f.method_to pc) (f.base_to pc) [] ?_ ?_
    · rw [hs', State.frames_of, List.nil_append]
    · rw [hs', State.stack_of]
      exact List.prefix_append ..

theorem Spares.depth {s₁ s : State} (h : Spares s₁ s) : s₁.callers.length ≤ s.callers.length := by
  obtain ⟨younger, g, hframes, -, -⟩ := h.frames
  have hlen := congrArg List.length hframes
  simp only [State.frames, List.length_cons, List.length_append] at hlen
  omega

theorem Returned.depth {count : Nat} {s₁ last s : State} (h : Returned count s₁ last s) :
    s.callers.length < s₁.callers.length := by
  rw [← h.frames]
  exact Nat.lt_succ_self _

/-- The run still has the frames it has in `s₁` before each of its next `k` instructions. -/
def Lives (u : Setup) (o : Observer σ) (s₁ : State) (r : Run σ) (k : Nat) : Prop :=
  ∀ j < k, ∀ q, go u o j r = .running q → s₁.callers.length ≤ q.state.callers.length

/-- The last of the next `k` instructions is the return of the frame on top of `s₁`. -/
def Returns (u : Setup) (o : Observer σ) (c : Method) (s₁ : State) (r : Run σ) (k : Nat)
    (q : Run σ) : Prop :=
  ∃ j last, k = j + 1 ∧ go u o j r = .running last ∧ At u last.state.frame c .ret ∧
    Returned (valueCount c.returnsValue) s₁ last.state q.state

/-- What is below a frame is kept as long as the run has the frame; then the frame has returned. -/
theorem spares_go {s₁ : State} {c : Method} (hc : u.image.methods[s₁.frame.method]? = some c) :
    ∀ (k : Nat) (r : Run σ), Spares s₁ r.state → Orderly r.state → Lives u o s₁ r k →
      (go u o k r).Holds (fun q => Spares s₁ q.state ∨ Returns u o c s₁ r k q)
        fun _ q => Spares s₁ q.state := by
  intro k
  induction k with
  | zero => exact fun r h _ _ => .inl h
  | succ k ih =>
    intro r h ho hlive
    have hstep := spares_advance (u := u) (o := o) hc h ho
    have hnext := orderly_advance (u := u) (o := o) ho
    cases hadv : advance u o r with
    | ended outcome r' =>
      rw [hadv] at hstep
      rw [go, hadv]
      exact hstep
    | running r' =>
      rw [hadv] at hstep hnext
      have hgo : ∀ j, go u o (j + 1) r = go u o j r' := fun j => by rw [go, hadv]
      -- the instructions that follow are those of `r` without the first
      have hlive' : Lives u o s₁ r' k := fun j hj q hq =>
        hlive (j + 1) (Nat.succ_lt_succ hj) q ((hgo j).trans hq)
      rcases hstep with hspares | ⟨hat, hret⟩
      · have hrest := ih r' hspares hnext hlive'
        rw [hgo]
        generalize go u o k r' = progress at hrest ⊢
        cases progress with
        | ended outcome q => exact hrest
        | running q =>
          refine hrest.imp_right ?_
          rintro ⟨j, last, rfl, hlast, hreturn⟩
          exact ⟨j + 1, last, rfl, (hgo j).trans hlast, hreturn⟩
      · cases k with
        | zero => exact hgo 0 ▸ .inr ⟨0, r, rfl, rfl, hat, hret⟩
        | succ k =>
          exact absurd (hlive' 0 (Nat.zero_lt_succ k) r' rfl) (Nat.not_le.mpr hret.depth)

/-! ### Reachable states -/

/-- The run has come from the start of some method, and may have ended. -/
def Reached (u : Setup) (o : Observer σ) (r : Run σ) : Prop :=
  ∃ heap console method args s seen k, start u.image heap console method args = .ok s ∧
    (go u o k ⟨s, 0, seen⟩ = .running r ∨ ∃ outcome, go u o k ⟨s, 0, seen⟩ = .ended outcome r)

theorem orderly_start {p : Image} {heap : Heap} {console : Console} {method : Nat}
    {args : List Value} {s : State} (h : start p heap console method args = .ok s) : Orderly s := by
  unfold start at h
  split at h
  · cases h
  · cases h
    refine ⟨List.pairwise_singleton .., fun f hf => ?_⟩
    obtain rfl := List.mem_singleton.mp hf
    exact Nat.le_refl 0

theorem Reached.orderly {r : Run σ} (h : Reached u o r) : Orderly r.state := by
  obtain ⟨heap, console, method, args, s, seen, k, hs, hgo⟩ := h
  have hinv := go_invariant (u := u) (o := o) (fun r hr => orderly_advance hr) k ⟨s, 0, seen⟩
    (orderly_start hs)
  rcases hgo with hgo | ⟨outcome, hgo⟩
  · rw [hgo] at hinv
    exact hinv
  · rw [hgo] at hinv
    exact hinv

/-- A call with so many arguments has led from `s` to `s₁`: the arguments are gone from the stack,
and a frame stands above what is left. -/
structure Called (argc : Nat) (s s₁ : State) : Prop where
  args : s.frame.base + argc ≤ s.stack.size
  stack : s₁.stack.toList = s.stack.toList.take (s.stack.size - argc)
  base : s₁.frame.base = s₁.stack.size
  callers : s₁.callers = s.next.frames

theorem called_advance {r r₁ : Run σ} (ho : Orderly r.state) {m : Method} {id argc : Nat}
    (hat : At u r.state.frame m (.call id argc)) (hadv : advance u o r = .running r₁) :
    ∃ c, callee u.image id argc = .ok c ∧ r₁.state.frame.method = id ∧
      Called argc r.state r₁.state := by
  obtain ⟨low, ops, f, cs, n, w, hs, hf, hcases⟩ := ho.advances (u := u) (o := o)
  rw [hadv] at hcases
  have hinstr : ∀ {m' i}, At u f m' i → i = .call id argc := by
    intro m' i hat'
    rw [hs] at hat
    obtain rfl := Option.some.inj (hat'.1.symm.trans hat.1)
    exact Option.some.inj (hat'.2.symm.trans hat.2)
  cases hcases with
  | moved hat' _ hcall _ _ _ _ => exact absurd (hinstr hat') (hcall _ _)
  | left hat' _ _ _ => cases hinstr hat'
  | @entered _ c _ _ args rest _ _ _ hat' hc hops hs' =>
    obtain ⟨rfl, rfl⟩ := Instr.call.inj (hinstr hat')
    refine ⟨c, hc, by rw [hs']; rfl, ?_⟩
    rw [hs, hs']
    refine ⟨?_, ?_, ?_, rfl⟩
    · rw [State.size_of, hops, List.length_append]
      show f.base + args.length ≤ _
      omega
    · rw [State.size_of, State.stack_of, State.stack_of, hops, List.length_append]
      rw [List.reverse_append, ← List.append_assoc, List.reverse_nil, List.append_nil]
      rw [List.take_left']
      rw [List.length_append, List.length_reverse]
      omega
    · simp [State.of]

/-- Frames are isolated, whatever the image.  In every state that a run comes to, the bases of the
frames do not decrease and the stack reaches them.  A call takes its arguments off the stack; until
its frame returns, what is below the frame stays as it is, also if the run ends before.  The return
gives the caller the frame and the operands that the call has left, and appends what the callee has
left of its own: one value if it returns a value, and none otherwise. -/
theorem frames_isolated {r : Run σ} (h : Reached u o r) :
    Orderly r.state ∧ ∀ m id argc r₁, At u r.state.frame m (.call id argc) →
      advance u o r = .running r₁ → ∃ c, callee u.image id argc = .ok c ∧
        Called argc r.state r₁.state ∧ ∀ k, Lives u o r₁.state r₁ k → (go u o k r₁).Holds
          (fun q => if r₁.state.callers.length ≤ q.state.callers.length
            then Spares r₁.state q.state
            else Returns u o c r₁.state r₁ k q)
          fun _ q => Spares r₁.state q.state := by
  refine ⟨h.orderly, fun m id argc r₁ hat hadv => ?_⟩
  obtain ⟨c, hc, hmethod, hcalled⟩ := called_advance h.orderly hat hadv
  have hnext := orderly_advance (u := u) (o := o) h.orderly
  rw [hadv] at hnext
  have hid : u.image.methods[r₁.state.frame.method]? = some c := by
    rw [hmethod]
    exact (callee_spec hc).1
  refine ⟨c, hc, hcalled, fun k hlive => ?_⟩
  have hgo := spares_go hid k r₁ (.refl _) hnext hlive
  cases hk : go u o k r₁ with
  | ended outcome q =>
    rw [hk] at hgo
    exact hgo
  | running q =>
    rw [hk] at hgo
    show if _ then _ else _
    rcases hgo with hspares | hret
    · rw [if_pos hspares.depth]
      exact hspares
    · obtain ⟨j, last, hj, hlast, hat', hreturned⟩ := hret
      rw [if_neg (Nat.not_le.mpr hreturned.depth)]
      exact ⟨j, last, hj, hlast, hat', hreturned⟩

end

/-- A method that leaves an operand below the argument of its call, and the callee. -/
def callImage : Image where
  methods := #[
    ⟨"main", [], .integer, #[],
      #[.pushInt 7, .pushInt 5, .call 1 1, .arith .add .integer, .ret], #[], none⟩,
    ⟨"same", [.integer], .integer, #[], #[.loadArg 0, .ret], #[], none⟩]
  strings := #[]
  hostRoutines := #[]
  entry := some 0

def callSetup : Setup := ⟨callImage, [], none⟩

def callRun (steps : Nat) (stack : Array Value) (frame : Frame) (callers : List Frame) : Run Unit :=
  ⟨⟨stack, frame, callers, .bare, .ofLines []⟩, steps, ()⟩

def callBefore : Run Unit := callRun 2 #[.int 7, .int 5] ⟨0, #[], #[], 2, 0⟩ []

def callWithin : Run Unit :=
  callRun 3 #[.int 7] ⟨1, #[.int 5], #[], 0, 1⟩ [⟨0, #[], #[], 3, 0⟩]

def callReturning : Run Unit :=
  callRun 4 #[.int 7, .int 5] ⟨1, #[.int 5], #[], 1, 1⟩ [⟨0, #[], #[], 3, 0⟩]

def callAfter : Run Unit := callRun 5 #[.int 7, .int 5] ⟨0, #[], #[], 3, 0⟩ []

theorem callImage_frames_isolated :
    Reached callSetup .blind callBefore ∧
      advance callSetup .blind callBefore = .running callWithin ∧
      go callSetup .blind 1 callWithin = .running callReturning ∧
      advance callSetup .blind callReturning = .running callAfter ∧
      Orderly callBefore.state ∧ Called 1 callBefore.state callWithin.state ∧
      Returned 1 callWithin.state callReturning.state callAfter.state := by
  have hreached : Reached callSetup .blind callBefore := by
    refine ⟨.bare, .ofLines [], 0, [], (callRun 0 #[] ⟨0, #[], #[], 0, 0⟩ []).state, (), 2, ?_,
      .inl ?_⟩
    · rfl
    · rfl
  have hcall : advance callSetup .blind callBefore = .running callWithin := by rfl
  have hone : go callSetup .blind 1 callWithin = .running callReturning := by rfl
  have hreturn : advance callSetup .blind callReturning = .running callAfter := by rfl
  have hgo : go callSetup .blind 2 callWithin = .running callAfter := by rfl
  have hlives : Lives callSetup .blind callWithin.state callWithin 2 := by
    intro j hj q hq
    obtain rfl | rfl : j = 0 ∨ j = 1 := by omega
    · obtain rfl := Progress.running.inj hq
      exact Nat.le_refl _
    · obtain rfl := Progress.running.inj (hone.symm.trans hq)
      exact Nat.le_refl _
  obtain ⟨ho, hrest⟩ := frames_isolated hreached
  obtain ⟨c, hc, hcalled, hrun⟩ := hrest _ 1 1 callWithin ⟨rfl, rfl⟩ hcall
  have hq := hrun 2 hlives
  obtain rfl : _ = c := Except.ok.inj hc
  rw [hgo] at hq
  obtain ⟨j, last, hj, hlast, _, hreturned⟩ := hq
  obtain rfl : 1 = j := Nat.succ.inj hj
  obtain rfl := Progress.running.inj (hone.symm.trans hlast)
  exact ⟨hreached, hcall, hone, hreturn, ho, hcalled, hreturned⟩

end Quill.Machine
