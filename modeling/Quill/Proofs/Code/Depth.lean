import Quill.Proofs.Code.Flow

/-! # Depths of the operand stack

How many operands a frame has at a position of its code.  `depthAt` finds a depth for every position
in one scan of the code; that it is the right one, whatever way control has taken, is what `Steady`
says of an instruction.  A segment is a piece of code with steady instructions, and the depths at
its two ends; segments are put together one after the other. -/

namespace Quill.Code

section

variable (p : Image) (m : Method)

/-- The depth at a position, from the instructions before it.  Control does not fall behind a jump
or a return: there the operand is missing that a jump carries over the other branch, or that a
return gives, if there is one. -/
def depthAt : Nat → Nat
  | 0 => 0
  | pc + 1 =>
    match m.code[pc]? with
    | some i =>
      if i.falls then depthAt pc - (i.effect p).pops + (i.effect p).pushes else depthAt pc - 1
    | none => 0

/-- The instruction at a position finds its operands, and wherever control goes from there, the
depth is that of what is left. -/
structure Steady (d : Nat → Nat) (pc : Nat) (i : Instr) : Prop where
  pops : (i.effect p).pops ≤ d pc
  next : ∀ pc', Leads m i (pc + 1) pc' → d pc' = d pc - (i.effect p).pops + (i.effect p).pushes

/-- A piece of code from `a`, at depth `δ`, up to `b`, at depth `δ'`.  Its instructions are steady,
and its returns are at positions with `R`. -/
structure Segment (R : Nat → Prop) (a δ b δ' : Nat) : Prop where
  le : a ≤ b
  entry : depthAt p m a = δ
  exit : depthAt p m b = δ'
  steady : ∀ pc, a ≤ pc → pc < b → ∃ i, m.code[pc]? = some i ∧
    Steady p m (depthAt p m) pc i ∧ (i = .ret → R pc)

end

section

variable {p : Image} {m : Method} {R : Nat → Prop} {a b c δ δ' δ'' : Nat}

theorem depthAt_falls {i : Instr} (hi : m.code[a]? = some i) (hf : i.falls = true) :
    depthAt p m (a + 1) = depthAt p m a - (i.effect p).pops + (i.effect p).pushes := by
  rw [depthAt, hi]
  exact if_pos hf

theorem depthAt_stops {i : Instr} (hi : m.code[a]? = some i) (hf : i.falls = false) :
    depthAt p m (a + 1) = depthAt p m a - 1 := by
  rw [depthAt, hi]
  exact if_neg (Bool.eq_false_iff.mp hf)

theorem Segment.nil (h : depthAt p m a = δ) : Segment p m R a δ a δ :=
  ⟨Nat.le_refl a, h, h, fun _ hle hlt => absurd hlt (Nat.not_lt.mpr hle)⟩

theorem Segment.trans (h : Segment p m R a δ b δ') (h' : Segment p m R b δ' c δ'') :
    Segment p m R a δ c δ'' := by
  refine ⟨Nat.le_trans h.le h'.le, h.entry, h'.exit, fun pc hle hlt => ?_⟩
  by_cases hb : pc < b
  · exact h.steady pc hle hb
  · exact h'.steady pc (Nat.not_lt.mp hb) hlt

theorem Segment.one {i : Instr} (hi : m.code[a]? = some i) (h : Steady p m (depthAt p m) a i)
    (hR : i = .ret → R a) (hδ : depthAt p m a = δ) (hδ' : depthAt p m (a + 1) = δ') :
    Segment p m R a δ (a + 1) δ' := by
  refine ⟨Nat.le_succ a, hδ, hδ', fun pc hle hlt => ?_⟩
  obtain rfl : pc = a := by omega
  exact ⟨i, hi, h, hR⟩

/-- An instruction that control falls behind.  If it can branch, the depth is the same at its
target. -/
theorem Segment.falling {i : Instr} {n k : Nat} (hi : m.code[a]? = some i)
    (hf : i.falls = true) (he : i.effect p = ⟨n, k⟩) (hδ : depthAt p m a = δ + n)
    (ht : ∀ label pc, i.target? = some label → m.position? label = some pc →
      depthAt p m pc = δ + k) : Segment p m R a (δ + n) (a + 1) (δ + k) := by
  have hnext : depthAt p m a - (i.effect p).pops + (i.effect p).pushes = δ + k := by
    rw [hδ, he]
    show δ + n - n + k = _
    omega
  have hδ' : depthAt p m (a + 1) = δ + k := (depthAt_falls hi hf).trans hnext
  refine .one hi ⟨?_, fun pc hpc => ?_⟩ (fun hret => ?_) hδ hδ'
  · rw [hδ, he]
    exact Nat.le_add_left n δ
  · rw [hnext]
    rcases hpc with ⟨-, rfl⟩ | ⟨label, hlabel, hpc⟩
    · exact hδ'
    · exact ht label pc hlabel hpc
  · rw [hret] at hf
    cases hf

theorem Segment.instr {i : Instr} {n k : Nat} (hi : m.code[a]? = some i) (hf : i.falls = true)
    (ht : i.target? = none) (he : i.effect p = ⟨n, k⟩) (hδ : depthAt p m a = δ + n) :
    Segment p m R a (δ + n) (a + 1) (δ + k) := by
  refine .falling hi hf he hδ fun label pc hlabel _ => ?_
  rw [ht] at hlabel
  cases hlabel

theorem Segment.label {label : Nat} (hi : m.code[a]? = some (.label label))
    (hδ : depthAt p m a = δ) : Segment p m R a δ (a + 1) δ :=
  .instr (n := 0) hi rfl rfl rfl hδ

theorem Segment.branchIfTrue {label pc : Nat} (hi : m.code[a]? = some (.branchIfTrue label))
    (hpos : m.position? label = some pc) (hδ : depthAt p m a = δ + 1)
    (hpc : depthAt p m pc = δ) : Segment p m R a (δ + 1) (a + 1) δ := by
  refine .falling (k := 0) hi rfl rfl hδ fun label' pc' hlabel hpc' => ?_
  cases hlabel
  rw [hpos] at hpc'
  cases hpc'
  exact hpc

theorem Segment.jump {label pc : Nat} (hi : m.code[a]? = some (.jump label))
    (hpos : m.position? label = some pc) (hδ : depthAt p m a = δ) (hpc : depthAt p m pc = δ) :
    Segment p m R a δ (a + 1) (δ - 1) := by
  refine .one hi ⟨Nat.zero_le _, fun pc' hleads => ?_⟩ (fun hret => by cases hret) hδ ?_
  · rcases hleads with ⟨hf, -⟩ | ⟨label', hlabel, hpc'⟩
    · cases hf
    · cases hlabel
      rw [hpos] at hpc'
      cases hpc'
      rw [hpc, hδ]
      rfl
  · rw [depthAt_stops hi rfl, hδ]

theorem Segment.ret (hi : m.code[a]? = some .ret) (hδ : depthAt p m a = δ) (hR : R a) :
    Segment p m R a δ (a + 1) (δ - 1) := by
  refine .one hi ⟨Nat.zero_le _, fun pc hleads => ?_⟩ (fun _ => hR) hδ ?_
  · rcases hleads with ⟨hf, -⟩ | ⟨label, hlabel, -⟩
    · cases hf
    · cases hlabel
  · rw [depthAt_stops hi rfl, hδ]

end

end Quill.Code
