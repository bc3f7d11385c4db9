import Quill.Proofs.Lowering.Operands
import Quill.Proofs.Meaning.Simulates

/-! # Operations of the evaluation and of the machine

On operands of the types that an instruction takes, the operations of the evaluation give what the
instruction gives: the same values, the same faults, the same world. -/

namespace Quill.Meaning

open Code Machine

section

variable {w : World} {α β : Type} {out : α → List Value}

theorem bind_eq_of_ok {f : Eval α} {w' : World} {a : α} (h : f w = .ok a w') (g : α → Eval β) :
    (f >>= g) w = g a w' := by
  rw [run_bind, h]

theorem Follows.bind {r : Except Fault β} {g : β → Eval α} {k : β → Machine.Effect}
    (h : ∀ b, Follows out w (g b w) (k b)) : Follows out w ((lift r >>= g) w) (r >>= k) := by
  cases r with
  | error e => rfl
  | ok b => exact h b

theorem Follows.ok {a : α} {w' : World} {vs : List Value} (h : out a = vs) :
    Follows out w (.ok a w') (.ok (vs, w')) := ⟨a, rfl, h⟩

/-! ### Numbers and texts -/

variable {v v' : Value}

theorem arithmetic_follows (op : ArithOp) {num : Numeric} (hv : HasTy w.arrays v num.toTy)
    (hv' : HasTy w.arrays v' num.toTy) :
    Follows ([·]) w (arithmetic op v v' w) (do return ([← arith op num v v'], w)) := by
  cases num with
  | integer =>
    obtain ⟨a, rfl⟩ := hv.exists_int (.inl rfl)
    obtain ⟨b, rfl⟩ := hv'.exists_int (.inl rfl)
    show Follows _ w ((lift (arithInt op a b) >>= fun n => (pure (.int n) : Eval Value)) w)
      ((arithInt op a b >>= fun n => pure (.int n)) >>= fun v => pure ([v], w))
    rw [bind_assoc]
    exact .bind fun n => .ok rfl
  | float =>
    obtain ⟨x, rfl⟩ := hv.exists_float
    obtain ⟨y, rfl⟩ := hv'.exists_float
    exact .ok rfl

theorem concat_follows (hv : HasTy w.arrays v .string) (hv' : HasTy w.arrays v' .string) :
    Follows ([·]) w (arithmetic .add v v' w)
      (do return ([.str ((← v.asStr) ++ (← v'.asStr))], w)) := by
  obtain ⟨a, rfl⟩ := hv.exists_str
  obtain ⟨b, rfl⟩ := hv'.exists_str
  exact .ok rfl

/-- The instruction of an arithmetic operator, on operands of the type of its result. -/
theorem arithmetic_effect (p : Image) (hosts : Hosts) {op : ArithOp} {l r t : Ty} {i : Instr}
    (hres : op.result? l r = some t) (hi : Lowering.arithInstr op t = .ok i)
    (hv : HasTy w.arrays v t) (hv' : HasTy w.arrays v' t) {x : Machine.Effect}
    (h : effect p hosts w i [v', v] = some x) : Follows ([·]) w (arithmetic op v v' w) x := by
  rcases Lowering.arith_cases hres with ⟨num, rfl, _, _, hi'⟩ | ⟨rfl, _, _, rfl, hi'⟩
  · rw [hi] at hi'
    cases hi'
    cases h
    exact arithmetic_follows op hv hv'
  · rw [hi] at hi'
    cases hi'
    cases h
    exact concat_follows hv hv'

/-- The values that have been evaluated as integers are integers. -/
theorem exists_integers {k : Nat} : ∀ {vs : List Value},
    List.Forall₂ (HasTy w.arrays) vs (List.replicate k .integer) →
      ∃ ns : List Int64, vs = ns.map .int := by
  induction k with
  | zero =>
    intro vs h
    cases h
    exact ⟨[], rfl⟩
  | succ k ih =>
    intro vs h
    rw [List.replicate_succ] at h
    cases h with
    | cons hv hvs =>
      obtain ⟨n, rfl⟩ := hv.exists_int (.inl rfl)
      obtain ⟨ns, rfl⟩ := ih hvs
      exact ⟨n :: ns, rfl⟩

theorem integers_map (ns : List Int64) (w : World) : integers (ns.map .int) w = .ok ns w := by
  induction ns with
  | nil => rfl
  | cons n ns ih =>
    rw [List.map_cons, integers, run_bind, ih]
    rfl

/-- Operands that have been left as integers, the last on top, are integers. -/
theorem integers_of_leaves {w' : World} {vs : List Value} {k : Nat}
    (h : Leaves w (List.replicate k .integer).reverse (vs.reverse, w')) :
    ∃ ns : List Int64, vs = ns.map .int ∧ ns.length = k ∧
      List.Forall₂ (HasTy w'.arrays) (ns.map Value.int).reverse (List.replicate k .integer) := by
  have hops := h.operands
  rw [List.forall₂_reverse_iff] at hops
  obtain ⟨ns, rfl⟩ := exists_integers hops
  refine ⟨ns, rfl, by simpa using hops.length_eq, ?_⟩
  rw [← List.reverse_replicate]
  exact h.operands

theorem asInts_map (ns : List Int64) : Value.asInts (ns.map .int) = .ok ns := by
  induction ns with
  | nil => rfl
  | cons n ns ih =>
    rw [List.map_cons, Value.asInts, ih]
    rfl

/-! ### Arrays -/

theorem arrayAt_bind (ref : Ref) (g : ArrayValue → Eval α) :
    (arrayAt ref >>= g) w = (lift (w.arrays.find ref) >>= g) w := by
  rw [run_bind, run_bind]
  rfl

theorem elementOf_follows {e : Element} {rank : Nat} (ns : List Int64)
    (hv : HasTy w.arrays v (.array e rank)) :
    Follows ([·]) w (elementOf v ns w) (getEffect w (ns.map Value.int).reverse v) := by
  obtain ⟨ref, a, rfl, _⟩ := hv.exists_array
  unfold getEffect
  rw [List.reverse_reverse, asInts_map]
  show Follows _ w ((arrayAt ref >>= fun a => lift (a.get ns)) w)
    (w.arrays.find ref >>= fun a => a.get ns >>= fun v => pure ([v], w))
  rw [arrayAt_bind]
  refine .bind fun a => ?_
  have h : Follows ([·]) w ((lift (a.get ns) >>= pure) w)
    (a.get ns >>= fun v => pure ([v], w)) := .bind fun v => .ok rfl
  rwa [bind_pure] at h

theorem setElement_follows {e : Element} {rank : Nat} (ns : List Int64)
    (hv : HasTy w.arrays v (.array e rank)) (v' : Value) :
    Follows (fun _ => []) w (setElement v ns v' w)
      (setEffect w v' (ns.map Value.int).reverse v) := by
  obtain ⟨ref, a, rfl, ha, _⟩ := hv.exists_array
  unfold setEffect
  rw [List.reverse_reverse, asInts_map]
  show Follows _ w ((arrayAt ref >>= fun a => lift (a.place ns) >>= fun i =>
      modify fun w => { w with arrays := w.arrays.replace ref i v' }) w)
    ((w.arrays.find ref).bind (·.place ns) >>= fun i =>
      pure ([], { w with arrays := w.arrays.replace ref i v' }))
  rw [arrayAt_bind, ha]
  exact .bind (r := a.place ns) fun i => .ok rfl

/-- The instruction that reads an element, on the indices above what is indexed. -/
theorem element_effect (p : Image) (hosts : Hosts) {base t : Ty} {i : Instr} {ns : List Int64}
    (hel : Typing.ElementOk base ns.length t) (hi : Lowering.elementInstr base ns.length = .ok i)
    (hv : HasTy w.arrays v base) {r : Machine.Effect}
    (h : effect p hosts w i ((ns.map Value.int).reverse ++ [v]) = some r) :
    Follows ([·]) w (elementOf v ns w) r := by
  cases base with
  | array e rank =>
    obtain ⟨rfl, _⟩ := hel
    rw [Lowering.elementInstr, if_pos rfl] at hi
    cases hi
    have hlen : (ns.map Value.int).reverse.length = ns.length := by simp
    split at h
    · next hone =>
      obtain ⟨n, rfl⟩ := List.length_eq_one_iff.mp hone
      cases h
      exact elementOf_follows [n] hv
    · rw [effect, ← hlen, List.drop_left, List.take_left] at h
      cases h
      exact elementOf_follows ns hv
  | string =>
    obtain ⟨hone, _⟩ := hel
    obtain ⟨n, rfl⟩ := List.length_eq_one_iff.mp hone
    obtain ⟨s, rfl⟩ := hv.exists_str
    cases hi
    cases h
    exact .bind (r := charAt s n) fun _ => .ok rfl
  | undefined | void => cases v <;> exact hv.elim
  | integer | float | boolean => exact hel.elim

/-- The instruction that assigns an element, on the value above the indices and the array. -/
theorem setElement_effect (p : Image) (hosts : Hosts) {e : Element} {ns : List Int64}
    (hv : HasTy w.arrays v (.array e ns.length)) {r : Machine.Effect}
    (h : effect p hosts w (if ns.length = 1 then .storeElem else .arraySet ns.length)
      (v' :: ((ns.map Value.int).reverse ++ [v])) = some r) :
    Follows (fun _ => []) w (setElement v ns v' w) r := by
  have hlen : (ns.map Value.int).reverse.length = ns.length := by simp
  split at h
  · next hone =>
    obtain ⟨n, rfl⟩ := List.length_eq_one_iff.mp hone
    cases h
    exact setElement_follows [n] hv v'
  · rw [effect, ← hlen, List.drop_left, List.take_left] at h
    cases h
    exact setElement_follows ns hv v'

theorem allocate_follows (e : Element) (ns : List Int64) :
    Follows ([·]) w (allocate e ns w) (newEffect w e (ns.map Value.int).reverse) := by
  unfold newEffect
  rw [List.reverse_reverse, asInts_map]
  exact .bind (r := ArrayValue.new e ns) fun a => .ok rfl

/-! ### Functions that are given -/

theorem external_follows (hosts : Hosts) (r : HostRoutine) (args : List Value) {x : Machine.Effect}
    (h : hostEffect hosts w r args = some x) :
    Follows Option.toList w (external hosts r args w) x := by
  unfold hostEffect at h
  unfold external
  cases hfind : hosts.find? r with
  | none =>
    rw [hfind] at h
    cases h
    rfl
  | some action =>
    rw [hfind] at h
    dsimp only at h ⊢
    show Follows _ w ((lift (action args w.arrays) >>= fun r => do
      set { w with arrays := r.2 }
      return r.1) w) x
    cases hact : action args w.arrays with
    | error e =>
      rw [hact] at h
      cases h
      rfl
    | ok res =>
      obtain ⟨result, arrays⟩ := res
      rw [hact] at h
      dsimp only at h
      split at h
      · cases h
        exact .ok rfl
      · cases h

theorem write_follows (f : Console → String → Except String Console) (g : Console → Console)
    (s : String)
    (hfault : ∀ fault, w.console.fault = some fault → f w.console s = .error fault)
    (hok : w.console.fault = none → f w.console s = .ok (g w.console)) :
    Follows Option.toList w ((write (f · s) >>= fun _ => pure none) w)
      (match w.console.fault with
        | some fault => .error (.console fault)
        | none => pure ([], { w with console := g w.console })) := by
  have hget : (get : Eval World) w = .ok w w := rfl
  rw [run_bind, write, bind_eq_of_ok hget]
  cases hf : w.console.fault with
  | some fault =>
    rw [hfault fault hf]
    rfl
  | none =>
    rw [hok hf]
    exact .ok rfl

/-- A built-in function does what the operation of its code does. -/
theorem builtin_follows {name : String} {tys : List Ty} {i : Intrinsic} {t : Ty}
    (hb : Lowering.Builtin name tys [.intrinsic i] t) {vs : List Value}
    (hvs : List.Forall₂ (HasTy w.arrays) vs tys) {x : Machine.Effect}
    (h : intrinsicEffect w i vs.reverse = some x) :
    Follows Option.toList w (builtin name tys vs w) x := by
  cases hb with
  | readln =>
    cases hvs
    cases h
    have hget : (get : Eval World) w = .ok w w := rfl
    show Follows _ w ((readLine >>= fun line => pure (some (Value.str line))) w) _
    rw [run_bind, readLine, bind_eq_of_ok hget]
    cases w.console.readLine with
    | error message => rfl
    | ok r => exact .ok rfl
  | print =>
    obtain ⟨v, rfl, hv⟩ := Lowering.forall₂_singleton hvs
    obtain ⟨s, rfl⟩ := hv.exists_str
    cases h
    refine write_follows Console.print (·.write s) s (fun fault hf => ?_) fun hf => ?_
    · rw [Console.print, hf]
    · rw [Console.print, hf]
  | println =>
    obtain ⟨v, rfl, hv⟩ := Lowering.forall₂_singleton hvs
    obtain ⟨s, rfl⟩ := hv.exists_str
    cases h
    refine write_follows Console.printLine (·.writeLine s) s (fun fault hf => ?_) fun hf => ?_
    · rw [Console.printLine, hf]
    · rw [Console.printLine, hf]
  | toint =>
    obtain ⟨v, rfl, hv⟩ := Lowering.forall₂_singleton hvs
    obtain ⟨s, rfl⟩ := hv.exists_str
    cases h
    exact .bind (r := parseInt s) fun _ => .ok rfl
  | tofloat =>
    obtain ⟨v, rfl, hv⟩ := Lowering.forall₂_singleton hvs
    obtain ⟨s, rfl⟩ := hv.exists_str
    cases h
    exact .bind (r := parseFloat s) fun _ => .ok rfl
  | integerText =>
    obtain ⟨v, rfl, hv⟩ := Lowering.forall₂_singleton hvs
    obtain ⟨n, rfl⟩ := hv.exists_int (.inl rfl)
    cases h
    exact .ok rfl
  | floatText =>
    obtain ⟨v, rfl, hv⟩ := Lowering.forall₂_singleton hvs
    obtain ⟨y, rfl⟩ := hv.exists_float
    cases h
    exact .ok rfl
  | booleanText =>
    obtain ⟨v, rfl, hv⟩ := Lowering.forall₂_singleton hvs
    obtain ⟨n, rfl⟩ := hv.exists_int (.inr rfl)
    cases h
    exact .ok rfl
  | stringLength =>
    obtain ⟨v, rfl, hv⟩ := Lowering.forall₂_singleton hvs
    obtain ⟨s, rfl⟩ := hv.exists_str
    cases h
    exact .ok rfl
  | arrayLength e rank =>
    obtain ⟨v, rfl, hv⟩ := Lowering.forall₂_singleton hvs
    obtain ⟨ref, a, rfl, ha, _⟩ := hv.exists_array
    cases h
    show Follows _ w (((arrayAt ref >>= fun a => (pure (lengthValue a.length) : Eval Value)) >>=
        fun v => pure (some v)) w)
      (w.arrays.find ref >>= fun a => pure ([lengthValue a.length], w))
    rw [bind_assoc, arrayAt_bind]
    exact .bind fun _ => .ok rfl

/-! ### Truth -/

theorem truth_ofBool (b : Bool) (w : World) : truth (.ofBool b) w = .ok b w := by
  cases b <;> rfl

/-- Values of a number type are compared as the machine compares them. -/
theorem comparison_follows (op : Comparison) {num : Numeric} {t : Ty} (ht : Compares num t)
    (hv : HasTy w.arrays v t) (hv' : HasTy w.arrays v' t) :
    ∃ c, comparison op v v' w = .ok c w ∧ holds op num v v' = .ok c := by
  cases num with
  | integer =>
    obtain ⟨a, rfl⟩ := hv.exists_int ht
    obtain ⟨b, rfl⟩ := hv'.exists_int ht
    exact ⟨_, rfl, rfl⟩
  | float =>
    obtain rfl : t = .float := ht
    obtain ⟨x, rfl⟩ := hv.exists_float
    obtain ⟨y, rfl⟩ := hv'.exists_float
    exact ⟨_, rfl, rfl⟩

theorem textComparison_follows {op : Comparison} (hop : op.isEquality = true) (s s' : String) :
    ∃ c, comparison op (.str s) (.str s') w = .ok c w ∧
      holds op .integer (.ofBool (s == s')) (.int 1) = .ok c := by
  cases op with
  | eq =>
    refine ⟨s == s', rfl, ?_⟩
    cases s == s' <;> rfl
  | ne =>
    refine ⟨s != s', rfl, ?_⟩
    rw [bne]
    cases s == s' <;> rfl
  | lt | gt | le | ge => cases hop

theorem connective_follows (p : Image) (hosts : Hosts) (op : LogicOp) (a b : Bool) :
    ∃ n : Int64, effect p hosts w (Lowering.logicInstr op) [.ofBool b, .ofBool a] =
      some (.ok ([.int n], w)) ∧ decide (n ≠ 0) = connective op a b := by
  cases op with
  | and =>
    refine ⟨(if a then 1 else 0) * (if b then 1 else 0), rfl, ?_⟩
    cases a <;> cases b <;> rfl
  | or =>
    refine ⟨(if a then 1 else 0) + (if b then 1 else 0), rfl, ?_⟩
    cases a <;> cases b <;> rfl

end

end Quill.Meaning
