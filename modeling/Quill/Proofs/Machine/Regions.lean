import Quill.Proofs.Code.Flow
import Quill.Proofs.Machine.Advance
import Quill.Proofs.Machine.Faults

/-! # The operand region of a frame

What the instructions of an arbitrary image do with the operand stack.  A state that has at least
the operands of its waiting frames is given by its parts (`State.of`); an instruction other than a
call or a return leaves the waiting frames and the operands below its own as they are, takes as many
operands as its stack effect says, or fails for want of them, and leaves as many as the effect says
above the others (`step_moves`).  What a call and a return do is said by `call_enters` and
`leave_leaves`, and `advance_cases` puts these together for one step of a run. -/

namespace Quill.Machine

open Code

/-- The fault tells of operands that are missing or left over. -/
def Fault.isStack : Fault → Bool
  | .stackUnderflow _ | .stackImbalance _ _ _ => true
  | _ => false

/-- A routine of the host ends in the fault by itself. -/
def Hosts.Raises (hosts : Hosts) (e : Fault) : Prop :=
  ∃ r action args arrays, hosts.find? r = some action ∧ action args arrays = .error e

/-! ### Looking at values

Looking at values and at arrays can fail, but it never tells of missing operands. -/

/-- A result, or a fault that does not tell of the stack. -/
def Mild {α : Type} (r : Except Fault α) : Prop := ∀ e, r = .error e → e.isStack = false

section

variable {α β : Type}

theorem Mild.ok (a : α) : Mild (.ok a) := fun _ h => by cases h

theorem Mild.error {e : Fault} (h : e.isStack = false) : Mild (.error e : Except Fault α) :=
  fun _ he => Except.error.inj he ▸ h

theorem Plain.mild {r : Except Fault α} (h : Plain r) : Mild r := by
  intro e he
  have hplain := h e he
  cases e with
  | stackUnderflow method => cases hplain
  | stackImbalance method depth expected => cases hplain
  | _ => rfl

theorem Mild.bind {r : Except Fault α} {k : α → Except Fault β} (hr : Mild r)
    (hk : ∀ a, Mild (k a)) : Mild (r >>= k) := by
  cases r with
  | error e => exact .error (hr e rfl)
  | ok a => exact hk a

end

theorem mild_find (as : Arrays) (ref : Ref) : Mild (as.find ref) := by
  cases ref with
  | empty element rank id => exact .ok _
  | made place =>
    unfold Arrays.find
    dsimp only
    split
    · exact .ok _
    · exact .error rfl

theorem mild_get (a : ArrayValue) (indices : List Int64) : Mild (a.get indices) := by
  refine (plain_offset a indices).mild.bind fun i => ?_
  split
  · exact .ok _
  · exact .error rfl

theorem mild_place (a : ArrayValue) (indices : List Int64) : Mild (a.place indices) := by
  refine (plain_offset a indices).mild.bind fun i => ?_
  split
  · exact .ok _
  · exact .error rfl

/-! ### Taking and leaving operands -/

section

variable {α β : Type} (hosts : Hosts) (low : List Value) (cs : List Frame)
  (rel : Frame → Frame → Prop)

/-- What has become of a frame with the operands `ops`.  It has become another one, with `pushes`
operands in the place of the `pops` top ones and the others as they were; or there is a fault, which
tells of the stack only if there were fewer operands or if it is the fault of a host routine.  The
waiting frames and their operands are untouched. -/
def Moved (pops pushes : Nat) (f : Frame) (ops : List Value) : EStateM.Result Fault State α → Prop
  | .ok _ s => ∃ new f' n w, s = .of low (new ++ ops.drop pops) f' cs n w ∧ rel f f' ∧
    pops ≤ ops.length ∧ new.length = pushes
  | .error e s => (∃ ops' n w, s = .of low ops' f cs n w) ∧
    (e.isStack = true → hosts.Raises e ∨ ops.length < pops)

/-- The action takes `pops` operands and leaves `pushes`. -/
def Moves (pops pushes : Nat) (x : Action α) : Prop :=
  ∀ ops f n w, f.base = low.length →
    Moved hosts low cs rel pops pushes f ops (x (.of low ops f cs n w))

end

section

variable {α β : Type} {hosts : Hosts} {low : List Value} {cs : List Frame}
  {rel : Frame → Frame → Prop} {m : Method} {pops pushes : Nat}

theorem Moved.take {f : Frame} {ops : List Value} {res : EStateM.Result Fault State α}
    (taken : List Value) (h : Moved hosts low cs rel pops pushes f ops res) :
    Moved hosts low cs rel (taken.length + pops) pushes f (taken ++ ops) res := by
  cases res with
  | ok a s =>
    obtain ⟨new, f', n, w, rfl, hrel, hle, hlen⟩ := h
    refine ⟨new, f', n, w, ?_, hrel, ?_, hlen⟩
    · rw [List.drop_length_add_append]
    · rw [List.length_append]
      omega
  | error e s =>
    obtain ⟨hs, he⟩ := h
    refine ⟨hs, fun hstack => (he hstack).imp_right fun hlt => ?_⟩
    rw [List.length_append]
    omega

theorem popMany_short {f : Frame} (hf : f.base = low.length) {count : Nat} {ops : List Value}
    (hlen : ops.length < count) {n : Nat} {w : World} :
    popMany m count (.of low ops f cs n w) =
      .error (.stackUnderflow m.name) (.of low ops f cs n w) := by
  unfold popMany State.of
  dsimp only
  rw [if_pos]
  simp only [List.size_toArray, List.length_append, List.length_reverse, hf]
  omega

theorem Moves.popMany {g : List Value → Action α}
    (h : ∀ vs, Moves hosts low cs rel pops pushes (g vs)) (count : Nat) :
    Moves hosts low cs rel (count + pops) pushes (popMany m count >>= g) := by
  intro ops f n w hf
  by_cases hlen : count ≤ ops.length
  · have htake : (ops.take count).length = count := List.length_take_of_le hlen
    have hrun : (Machine.popMany m (ops.take count).length >>= g)
        (.of low (ops.take count ++ ops.drop count) f cs n w) =
        g (ops.take count).reverse (.of low (ops.drop count) f cs n w) := popMany_bind hf _ g
    rw [htake, List.take_append_drop] at hrun
    rw [hrun]
    have hmoved := (h (ops.take count).reverse (ops.drop count) f n w hf).take (ops.take count)
    rwa [htake, List.take_append_drop] at hmoved
  · rw [bind_run, popMany_short hf (by omega)]
    exact ⟨⟨ops, n, w, rfl⟩, fun _ => .inr (by omega)⟩

theorem Moves.pop {g : Value → Action α} (h : ∀ v, Moves hosts low cs rel pops pushes (g v)) :
    Moves hosts low cs rel (pops + 1) pushes (pop m >>= g) := by
  intro ops f n w hf
  cases ops with
  | nil =>
    have hrun : Machine.pop m (.of low [] f cs n w) =
        .error (.stackUnderflow m.name) (.of low [] f cs n w) := by
      simp [Machine.pop, State.of, hf]
    rw [bind_run, hrun]
    exact ⟨⟨[], n, w, rfl⟩, fun _ => .inr (Nat.zero_lt_succ _)⟩
  | cons v ops =>
    rw [pop_bind hf, Nat.add_comm]
    exact (h v ops f n w hf).take [v]

theorem Moves.ofExcept {r : Except Fault α} (hr : Mild r) {g : α → Action β}
    (h : ∀ a, Moves hosts low cs rel pops pushes (g a)) :
    Moves hosts low cs rel pops pushes (ofExcept r >>= g) := by
  intro ops f n w hf
  cases r with
  | ok a => exact h a ops f n w hf
  | error e => exact ⟨⟨ops, n, w, rfl⟩, fun he => absurd he (by simp [hr e rfl])⟩

theorem Moves.ofOption {r : Option α} {e : Fault} (he : e.isStack = false) {g : α → Action β}
    (h : ∀ a, r = some a → Moves hosts low cs rel pops pushes (g a)) :
    Moves hosts low cs rel pops pushes (ofOption r e >>= g) := by
  intro ops f n w hf
  cases r with
  | some a => exact h a rfl ops f n w hf
  | none => exact ⟨⟨ops, n, w, rfl⟩, fun hs => absurd hs (by simp [he])⟩

theorem Moves.popInt {g : Int64 → Action α} (h : ∀ k, Moves hosts low cs rel pops pushes (g k)) :
    Moves hosts low cs rel (pops + 1) pushes (popInt m >>= g) := by
  rw [Machine.popInt, bind_assoc]
  exact .pop fun v => .ofExcept (plain_asInt v).mild h

theorem Moves.popStr {g : String → Action α} (h : ∀ s, Moves hosts low cs rel pops pushes (g s)) :
    Moves hosts low cs rel (pops + 1) pushes (popStr m >>= g) := by
  rw [Machine.popStr, bind_assoc]
  exact .pop fun v => .ofExcept (plain_asStr v).mild h

theorem Moves.popInts {g : List Int64 → Action α}
    (h : ∀ ks, Moves hosts low cs rel pops pushes (g ks)) (count : Nat) :
    Moves hosts low cs rel (count + pops) pushes (popInts m count >>= g) := by
  rw [Machine.popInts, bind_assoc]
  exact .popMany (fun vs => .ofExcept (plain_asInts vs).mild h) count

theorem Moves.arrayOf (v : Value) {g : ArrayValue → Action α}
    (h : ∀ a, Moves hosts low cs rel pops pushes (g a)) :
    Moves hosts low cs rel pops pushes (arrayOf v >>= g) := by
  intro ops f n w hf
  rw [arrayOf_bind]
  exact Moves.ofExcept ((plain_asArray v).mild.bind (mild_find w.arrays)) h ops f n w hf

/-! The last parts of instructions. -/

theorem Moves.pure (hrel : ∀ f, rel f f) (a : α) : Moves hosts low cs rel 0 0 (pure a) :=
  fun _ f n w _ => ⟨[], f, n, w, rfl, hrel f, Nat.zero_le _, rfl⟩

theorem Moves.push (hrel : ∀ f, rel f f) (v : Value) : Moves hosts low cs rel 0 1 (push v) := by
  intro ops f n w _
  rw [push_of]
  exact ⟨[v], f, n, w, rfl, hrel f, Nat.zero_le _, rfl⟩

theorem Moves.jump {label : Nat}
    (hrel : ∀ f pos, m.position? label = some pos → rel f (f.to pos)) :
    Moves hosts low cs rel 0 0 (jump m label) :=
  .ofOption rfl fun pos hpos _ f n w _ =>
    ⟨[], f.to pos, n, w, rfl, hrel f pos hpos, Nat.zero_le _, rfl⟩

theorem Moves.onConsole (hrel : ∀ f, rel f f) (g : Console → Console) :
    Moves hosts low cs rel 0 0 (onConsole g) := by
  intro ops f n w _
  unfold Machine.onConsole State.of
  dsimp only
  cases w.console.fault with
  | some fault => exact ⟨⟨ops, n, w, rfl⟩, by simp [Fault.isStack]⟩
  | none => exact ⟨[], f, n, ⟨w.arrays, g w.console⟩, rfl, hrel f, Nat.zero_le _, rfl⟩

theorem Moves.readLine {g : String → Action α} (h : ∀ s, Moves hosts low cs rel pops pushes (g s)) :
    Moves hosts low cs rel pops pushes (readLine >>= g) := by
  intro ops f n w hf
  rw [bind_run]
  unfold Machine.readLine
  dsimp only [State.of]
  cases w.console.readLine with
  | error message => exact ⟨⟨ops, n, w, rfl⟩, by simp [Fault.isStack]⟩
  | ok r => exact h _ ops f n ⟨w.arrays, r.2⟩ hf

theorem arrayGet_moves (hrel : ∀ f, rel f f) (rank : Nat) :
    Moves hosts low cs rel (rank + 1) 1 (arrayGet m rank) :=
  .popInts (fun indices => .pop fun v => .arrayOf v fun a =>
    .ofExcept (mild_get a indices) fun _ => .push hrel _) rank

theorem arraySet_moves (hrel : ∀ f, rel f f) (rank : Nat) :
    Moves hosts low cs rel (rank + 2) 0 (arraySet m rank) := by
  refine .pop fun v => .popInts (fun indices => .pop fun u =>
    .ofExcept (plain_asArray u).mild fun ref => ?_) rank
  intro ops f n w _
  unfold State.of
  dsimp only
  have hmild := (mild_find w.arrays ref).bind (mild_place · indices)
  cases hplace : (w.arrays.find ref).bind (·.place indices) with
  | error e => exact ⟨⟨ops, n, w, rfl⟩, fun hs => absurd hs (by simp [hmild e hplace])⟩
  | ok i =>
    exact ⟨[], f, n, ⟨w.arrays.replace ref i v, w.console⟩, rfl, hrel f, Nat.zero_le _, rfl⟩

theorem newArray_moves (hrel : ∀ f, rel f f) (element : Element) (rank : Nat) :
    Moves hosts low cs rel rank 1 (newArray m element rank) := by
  show Moves hosts low cs rel (rank + 0) 1 _
  refine .popInts (fun dims => .ofExcept (plain_new element dims).mild fun a => ?_) rank
  exact fun ops f n w hf => Moves.push hrel _ ops f n ⟨w.arrays.push a, w.console⟩ hf

theorem storeArg_moves (hrel : ∀ f args, rel f { f with args }) (slot : Nat) (v : Value) :
    Moves hosts low cs rel 0 0 (storeArg slot v) := by
  intro ops f n w _
  unfold storeArg State.of
  dsimp only
  split
  · exact ⟨[], _, n, w, rfl, hrel f _, Nat.zero_le _, rfl⟩
  · exact ⟨⟨ops, n, w, rfl⟩, by simp [Fault.isStack]⟩

theorem storeLocal_moves (hrel : ∀ f locals, rel f { f with locals }) (slot : Nat) (v : Value) :
    Moves hosts low cs rel 0 0 (storeLocal slot v) := by
  intro ops f n w _
  unfold storeLocal State.of
  dsimp only
  split
  · exact ⟨[], _, n, w, rfl, hrel f _, Nat.zero_le _, rfl⟩
  · exact ⟨⟨ops, n, w, rfl⟩, by simp [Fault.isStack]⟩

theorem loadArg_moves (hrel : ∀ f, rel f f) (slot : Nat) :
    Moves hosts low cs rel 0 1 (loadArg slot) := by
  intro ops f n w hf
  unfold loadArg
  split
  · exact Moves.push hrel _ ops f n w hf
  · exact ⟨⟨ops, n, w, rfl⟩, by simp [Fault.isStack]⟩

theorem loadLocal_moves (hrel : ∀ f, rel f f) (slot : Nat) :
    Moves hosts low cs rel 0 1 (loadLocal slot) := by
  intro ops f n w hf
  unfold loadLocal
  split
  · exact Moves.push hrel _ ops f n w hf
  · exact ⟨⟨ops, n, w, rfl⟩, by simp [Fault.isStack]⟩

theorem hostResult_moves (hrel : ∀ f, rel f f) (r : HostRoutine) (result : Option Value) :
    Moves hosts low cs rel 0 (valueCount r.returnType.isValue) (hostResult r result) := by
  unfold hostResult
  split
  · next v hv =>
    rw [hv]
    exact .push hrel v
  · next hv =>
    rw [hv]
    exact .pure hrel ()
  · exact fun ops f n w _ => ⟨⟨ops, n, w, rfl⟩, by simp [Fault.isStack]⟩
  · exact fun ops f n w _ => ⟨⟨ops, n, w, rfl⟩, by simp [Fault.isStack]⟩

/-- The only fault of the stack that a call of the host gives of itself is that of its routine. -/
theorem callHost_moves (hrel : ∀ f, rel f f) (p : Image) (routine : Nat) :
    Moves hosts low cs rel ((Instr.callHost routine).effect p).pops
      ((Instr.callHost routine).effect p).pushes (callHost p hosts m routine) := by
  refine .ofOption rfl fun r hr => ?_
  rw [Instr.effect, hr]
  show Moves hosts low cs rel (r.arity + 0) (valueCount r.returnType.isValue) _
  refine .popMany (fun args => .ofOption rfl fun action haction => ?_) r.arity
  intro ops f n w hf
  rw [bind_run]
  unfold onArrays
  dsimp only [State.of]
  cases hact : action args w.arrays with
  | error e => exact ⟨⟨ops, n, w, rfl⟩, fun _ => .inl ⟨r, action, args, w.arrays, haction, hact⟩⟩
  | ok res => exact hostResult_moves hrel r res.1 ops f n ⟨res.2, w.console⟩ hf

theorem intrinsic_moves (hrel : ∀ f, rel f f) (i : Intrinsic) :
    Moves hosts low cs rel i.effect.pops i.effect.pushes (intrinsic m i) := by
  cases i with
  | print | printLn => exact .popStr fun _ => .onConsole hrel _
  | readLn => exact .readLine fun _ => .push hrel _
  | intToStr | boolToStr => exact .popInt fun _ => .push hrel _
  | floatToStr => exact .pop fun v => .ofExcept (plain_asFloat v).mild fun _ => .push hrel _
  | parseInt => exact .popStr fun s => .ofExcept (plain_parseInt s).mild fun _ => .push hrel _
  | parseFloat => exact .popStr fun s => .ofExcept (plain_parseFloat s).mild fun _ => .push hrel _
  | strLen => exact .popStr fun _ => .push hrel _
  | arrayLen => exact .pop fun v => .arrayOf v fun _ => .push hrel _
  | charAt =>
    exact .popInt fun index => .popStr fun s => .ofExcept (plain_charAt s index).mild fun _ =>
      .push hrel _

/-- The frame after an instruction: control has gone on, and its variables may have changed. -/
structure Frame.Follows (m : Method) (i : Instr) (f f' : Frame) : Prop where
  method : f'.method = f.method
  base : f'.base = f.base
  pc : Leads m i f.pc f'.pc

theorem Frame.Follows.same {i : Instr} (h : i.falls = true) (f : Frame) : f.Follows m i f :=
  ⟨rfl, rfl, .next h f.pc⟩

/-- An instruction other than a call or a return moves operands as its stack effect says. -/
theorem step_moves (p : Image) {i : Instr} (hret : i ≠ .ret)
    (hcall : ∀ id argc, i ≠ .call id argc) :
    Moves hosts low cs (Frame.Follows m i) (i.effect p).pops (i.effect p).pushes
      (step p hosts m i) := by
  cases i with
  | nop | label => exact .pure (.same rfl) ()
  | pushInt | pushFloat => exact .push (.same rfl) _
  | pushStr => exact .ofOption rfl fun _ _ => .push (.same rfl) _
  | loadArg slot => exact loadArg_moves (.same rfl) slot
  | loadLocal slot => exact loadLocal_moves (.same rfl) slot
  | storeArg slot =>
    exact .pop fun v => storeArg_moves (fun f _ => ⟨rfl, rfl, .next rfl f.pc⟩) slot v
  | storeLocal slot =>
    exact .pop fun v => storeLocal_moves (fun f _ => ⟨rfl, rfl, .next rfl f.pc⟩) slot v
  | arith op ty =>
    exact .pop fun rhs => .pop fun lhs => .ofExcept (plain_arith op ty lhs rhs).mild fun _ =>
      .push (.same rfl) _
  | intToFloat => exact .popInt fun _ => .push (.same rfl) _
  | concat | strEq =>
    exact .pop fun rhs => .pop fun lhs => .ofExcept (plain_asStr lhs).mild fun _ =>
      .ofExcept (plain_asStr rhs).mild fun _ => .push (.same rfl) _
  | branchCmp cond ty target =>
    refine .pop fun rhs => .pop fun lhs =>
      .ofExcept (plain_holds cond ty lhs rhs).mild fun truth => ?_
    cases truth with
    | true => exact .jump fun f pos hpos => ⟨rfl, rfl, .branch rfl hpos f.pc⟩
    | false => exact .pure (.same rfl) ()
  | branchIfTrue target =>
    refine .popInt fun k => ?_
    split
    · exact .jump fun f pos hpos => ⟨rfl, rfl, .branch rfl hpos f.pc⟩
    · exact .pure (.same rfl) ()
  | jump target => exact .jump fun f pos hpos => ⟨rfl, rfl, .branch rfl hpos f.pc⟩
  | newArray element rank => exact newArray_moves (.same rfl) element rank
  | loadElem => exact arrayGet_moves (.same rfl) 1
  | storeElem => exact arraySet_moves (.same rfl) 1
  | arrayGet rank => exact arrayGet_moves (.same rfl) rank
  | arraySet rank => exact arraySet_moves (.same rfl) rank
  | call id argc => exact absurd rfl (hcall id argc)
  | callHost routine => exact callHost_moves (.same rfl) p routine
  | intrinsic i => exact intrinsic_moves (.same rfl) i
  | pop => exact .pop fun _ => .pure (.same rfl) ()
  | ret => exact absurd rfl hret

/-! ### Calls and returns -/

/-- What has become of a frame that calls: its arguments are taken and the frame of the callee
stands above what is left, or there is a fault. -/
def Entered (p : Image) (low : List Value) (cs : List Frame) (id argc : Nat) (f : Frame)
    (ops : List Value) : EStateM.Result Fault State Unit → Prop
  | .ok _ s => ∃ c args rest locals n w, callee p id argc = .ok c ∧ ops = args ++ rest ∧
    args.length = argc ∧ s = .of (low ++ rest.reverse) []
      ⟨id, args.reverse.toArray, locals, 0, (low ++ rest.reverse).length⟩ (f :: cs) n w
  | .error e s => (∃ ops' n w, s = .of low ops' f cs n w) ∧ (e.isStack = true → ops.length < argc)

theorem call_enters (p : Image) {f : Frame} (hf : f.base = low.length) (ops : List Value)
    (id argc n : Nat) (w : World) :
    Entered p low cs id argc f ops (step p hosts m (.call id argc) (.of low ops f cs n w)) := by
  by_cases hlen : argc ≤ ops.length
  · have htake : (ops.take argc).length = argc := List.length_take_of_le hlen
    have hrun : step p hosts m (.call id (ops.take argc).length)
        (.of low (ops.take argc ++ ops.drop argc) f cs n w) =
          enter p id (ops.take argc).reverse (.of low (ops.drop argc) f cs n w) :=
      popMany_bind hf _ _
    rw [htake, List.take_append_drop] at hrun
    rw [hrun]
    unfold enter
    rw [List.length_reverse, htake]
    cases hc : callee p id argc with
    | error e =>
      refine ⟨⟨_, n, w, rfl⟩, fun hs => absurd hs ?_⟩
      rw [(plain_callee p id argc).mild e hc]
      decide
    | ok c =>
      dsimp only [State.of]
      rw [newFrame_eq]
      refine ⟨c, ops.take argc, ops.drop argc, (initialLocals ⟨w.arrays, n⟩ #[] c.locals.toList).1,
        calledEmpties c w n, w, hc, ?_, htake, ?_⟩
      · rw [List.take_append_drop]
      · simp [State.of, calledEmpties]
  · rw [step, bind_run, popMany_short hf (by omega)]
    exact ⟨⟨ops, n, w, rfl⟩, fun _ => by omega⟩

/-- What has become of a frame that returns.  With other operands than a result there is a fault;
else the result is given, or it is left to the caller together with what the caller had. -/
def Left (m : Method) (low ops : List Value) (f : Frame) (cs : List Frame) :
    EStateM.Result Fault State (Option (Option Value)) → Prop
  | .ok (some result) s => ops.length = valueCount m.returnsValue ∧ cs = [] ∧ result = ops.head? ∧
    ∃ n w, s = .of low [] f [] n w
  | .ok none s => ops.length = valueCount m.returnsValue ∧ s.stack = (low ++ ops.reverse).toArray ∧
    s.frame :: s.callers = cs
  | .error e s => ops.length ≠ valueCount m.returnsValue ∧
    e = .stackImbalance m.name ops.length (valueCount m.returnsValue) ∧
    ∃ n w, s = .of low ops f cs n w

theorem leave_leaves {f : Frame} (hf : f.base = low.length) (ops : List Value) (n : Nat)
    (w : World) : Left m low ops f cs (leave m (.of low ops f cs n w)) := by
  by_cases hlen : ops.length = valueCount m.returnsValue
  · cases cs with
    | nil =>
      rw [leave_last hf hlen]
      exact ⟨hlen, rfl, rfl, n, w, rfl⟩
    | cons g cs =>
      rw [leave_of hf hlen]
      exact ⟨hlen, rfl, rfl⟩
  · have hdepth : (State.of low ops f cs n w).stack.size - f.base = ops.length := by
      simp [State.of, hf]
    have hrun : leave m (.of low ops f cs n w) =
        .error (.stackImbalance m.name ops.length (valueCount m.returnsValue))
          (.of low ops f cs n w) := by
      unfold leave
      dsimp only
      rw [show (State.of low ops f cs n w).frame.base = f.base from rfl, hdepth]
      exact if_pos hlen
    rw [hrun]
    exact ⟨hlen, rfl, n, w, rfl⟩

end

/-! ### Steps -/

section

variable {σ : Type} (u : Setup) (low ops : List Value) (f : Frame) (cs : List Frame)

/-- The next instruction of the frame. -/
def At (m : Method) (i : Instr) : Prop :=
  u.image.methods[f.method]? = some m ∧ m.code[f.pc]? = some i

/-- What a step can do to a run with the operands `ops` above those of the waiting frames. -/
inductive Advances : Progress σ → Prop
  /-- An instruction within the frame. -/
  | moved {m : Method} {i : Instr} {ops' : List Value} {f' : Frame} {n : Nat} {w : World}
    {r : Run σ} : At u f m i → i ≠ .ret → (∀ id argc, i ≠ .call id argc) →
    (f.to (f.pc + 1)).Follows m i f' →
    (i.effect u.image).pops ≤ ops.length →
    ops'.length = ops.length - (i.effect u.image).pops + (i.effect u.image).pushes →
    r.state = .of low ops' f' cs n w → Advances (.running r)
  /-- A call: the callee starts above the operands that are left. -/
  | entered {m c : Method} {id n : Nat} {args rest : List Value} {locals : Array Value} {w : World}
    {r : Run σ} : At u f m (.call id args.length) → callee u.image id args.length = .ok c →
    ops = args ++ rest → r.state = .of (low ++ rest.reverse) []
      ⟨id, args.reverse.toArray, locals, 0, (low ++ rest.reverse).length⟩
      (f.to (f.pc + 1) :: cs) n w → Advances (.running r)
  /-- A return to the frame that waits. -/
  | left {m : Method} {r : Run σ} : At u f m .ret → ops.length = valueCount m.returnsValue →
    r.state.stack = (low ++ ops.reverse).toArray → r.state.frame :: r.state.callers = cs →
    Advances (.running r)
  /-- The return of the last frame. -/
  | done {m : Method} {n : Nat} {w : World} {r : Run σ} : At u f m .ret →
    ops.length = valueCount m.returnsValue → cs = [] →
    r.state = .of low [] (f.to (f.pc + 1)) [] n w → Advances (.ended (.ok ops.head?) r)
  /-- A fault, which tells of the stack only if operands were missing or left over, or if it is the
  fault of a host routine. -/
  | failed {e : Fault} {ops' : List Value} {pc n : Nat} {w : World} {r : Run σ} :
    r.state = .of low ops' (f.to pc) cs n w →
    (e.isStack = true → u.hosts.Raises e ∨ ∃ m i, At u f m i ∧
      (i ≠ .ret ∧ ops.length < (i.effect u.image).pops ∨
        i = .ret ∧ pc = f.pc + 1 ∧ ops.length ≠ valueCount m.returnsValue ∧
          e = .stackImbalance m.name ops.length (valueCount m.returnsValue))) →
    Advances (.ended (.error e) r)

end

section

variable {σ : Type} {u : Setup} {o : Observer σ} {low ops : List Value} {f : Frame}
  {cs : List Frame}

theorem effect_call_pops (p : Image) (id argc : Nat) :
    ((Instr.call id argc).effect p).pops = argc := by
  unfold Instr.effect
  dsimp only
  split <;> rfl

theorem effect_call {p : Image} {id argc : Nat} {c : Method} (hc : callee p id argc = .ok c) :
    (Instr.call id argc).effect p = ⟨argc, valueCount c.returnsValue⟩ := by
  rw [Instr.effect, (callee_spec hc).1]

theorem advances_ofStep {m : Method} {i : Instr} (hat : At u f m i) (hret : i ≠ .ret)
    (hcall : ∀ id argc, i ≠ .call id argc) (steps : Nat) (seen : σ)
    {res : EStateM.Result Fault State Unit} (h : Moved u.hosts low cs (Frame.Follows m i)
      (i.effect u.image).pops (i.effect u.image).pushes (f.to (f.pc + 1)) ops res) :
    Advances u low ops f cs (.ofStep steps seen res) := by
  cases res with
  | ok a s =>
    obtain ⟨new, f', n, w, rfl, hrel, hle, hlen⟩ := h
    refine .moved hat hret hcall hrel hle ?_ rfl
    rw [List.length_append, List.length_drop, hlen, Nat.add_comm]
  | error e s =>
    obtain ⟨⟨ops', n, w, rfl⟩, he⟩ := h
    exact .failed rfl fun hs => (he hs).imp_right fun hlt => ⟨m, i, hat, .inl ⟨hret, hlt⟩⟩

theorem advances_ofCall {m : Method} {id argc : Nat} (hat : At u f m (.call id argc)) (steps : Nat)
    (seen : σ) {res : EStateM.Result Fault State Unit}
    (h : Entered u.image low cs id argc (f.to (f.pc + 1)) ops res) :
    Advances u low ops f cs (.ofStep steps seen res) := by
  cases res with
  | ok a s =>
    obtain ⟨c, args, rest, locals, n, w, hc, hops, rfl, rfl⟩ := h
    exact .entered hat hc hops rfl
  | error e s =>
    obtain ⟨⟨ops', n, w, rfl⟩, he⟩ := h
    refine .failed rfl fun hs => .inr ⟨m, _, hat, .inl ⟨by simp, ?_⟩⟩
    rw [effect_call_pops]
    exact he hs

theorem advances_ofLeave {m : Method} (hat : At u f m .ret) (steps : Nat) (seen : σ)
    {res : EStateM.Result Fault State (Option (Option Value))}
    (h : Left m low ops (f.to (f.pc + 1)) cs res) :
    Advances u low ops f cs (.ofLeave steps seen res) := by
  cases res with
  | ok result s =>
    cases result with
    | some result =>
      obtain ⟨hlen, hcs, rfl, n, w, rfl⟩ := h
      exact .done hat hlen hcs rfl
    | none =>
      obtain ⟨hlen, hstack, hcs⟩ := h
      exact .left hat hlen hstack hcs
  | error e s =>
    obtain ⟨hlen, he, n, w, rfl⟩ := h
    exact .failed rfl fun _ => .inr ⟨m, .ret, hat, .inr ⟨rfl, rfl, hlen, he⟩⟩

/-- A step does one of the things that a step can do. -/
theorem advance_cases (hf : f.base = low.length) (n : Nat) (w : World) (steps : Nat) (seen : σ) :
    Advances u low ops f cs (advance u o ⟨.of low ops f cs n w, steps, seen⟩) := by
  have hnext : (f.to (f.pc + 1)).base = low.length := hf
  cases hm : u.image.methods[f.method]? with
  | none =>
    unfold advance
    dsimp only [State.of]
    rw [hm]
    exact .failed rfl (by simp [Fault.isStack])
  | some m =>
    cases hi : m.code[f.pc]? with
    | none =>
      unfold advance
      dsimp only [State.of]
      rw [hm]
      dsimp only
      rw [hi]
      exact .failed rfl (by simp [Fault.isStack])
    | some i =>
      cases hlim : u.exceeded (steps + 1) with
      | some limit =>
        rw [advance_exceeded hm hi hlim]
        exact .failed rfl (by simp [Fault.isStack])
      | none =>
        by_cases hret : i = .ret
        · subst hret
          rw [advance_ret hm hi hlim, State.next_of]
          exact advances_ofLeave ⟨hm, hi⟩ _ _ (leave_leaves hnext ops n w)
        · rw [advance_step hm hi hlim hret, State.next_of]
          by_cases hcall : ∃ id argc, i = .call id argc
          · obtain ⟨id, argc, rfl⟩ := hcall
            exact advances_ofCall ⟨hm, hi⟩ _ _ (call_enters u.image hnext ops id argc n w)
          · have hplain : ∀ id argc, i ≠ .call id argc := fun id argc h => hcall ⟨id, argc, h⟩
            exact advances_ofStep ⟨hm, hi⟩ hret hplain _ _
              (step_moves u.image hret hplain ops _ n w hnext)

end

end Quill.Machine
