import Quill.Proofs.Code.Shape
import Quill.Proofs.Lowering.Calls

/-! # Operands of well-typed operations

Checking and lowering decide on their own which operands an operation takes.  Here the two are
compared: where the typing rules accept an operation, lowering has code for it, and each operand
has the type that the code takes, or is an integer where a floating-point number is taken. -/

namespace Quill.Lowering

open Code Typing

/-- A value of the first type stands where the second is required, after a conversion if need
be. -/
def Fits (t target : Ty) : Prop := t = target ∨ (t = .integer ∧ target = .float)

theorem Fits.refl (t : Ty) : Fits t t := .inl rfl

theorem isValue_of_numeric (n : Numeric) : n.toTy.isValue = true := by cases n <;> rfl

theorem Fits.isValue {t target : Ty} (h : Fits t target) (hv : target.isValue = true) :
    t.isValue = true := by
  rcases h with rfl | ⟨rfl, _⟩
  · exact hv
  · rfl

theorem ne_undefined_of_isValue {t : Ty} (h : t.isValue = true) : t ≠ .undefined := by
  rintro rfl
  cases h

/-- A value that may be assigned where a type is required fits the type. -/
theorem fits_of_assignableTo {t target : Ty} (hv : target.isValue = true)
    (h : t.assignableTo target = true) (ht : t.isValue = true) : Fits t target := by
  unfold Ty.assignableTo at h
  rw [if_neg (ne_undefined_of_isValue ht), if_neg (ne_undefined_of_isValue hv)] at h
  split at h
  · next heq => exact .inl heq
  split at h
  · next a b ha hb =>
    rw [Ty.numeric?_eq_some_iff] at ha hb
    subst ha hb
    cases a <;> cases b
    · exact .inl rfl
    · exact .inr ⟨rfl, rfl⟩
    · cases h
    · exact .inl rfl
  · cases h

theorem fits_of_returnOk {returnType t : Ty} (hv : returnType.isValue = true)
    (h : ReturnOk returnType t) : t.isValue = true → Fits t returnType := by
  have hvoid : returnType ≠ .void := by
    rintro rfl
    cases hv
  rw [ReturnOk, if_neg hvoid] at h
  exact fits_of_assignableTo hv (h.resolve_left (ne_undefined_of_isValue hv))

theorem fits_widest (l r : Numeric) :
    Fits l.toTy (l.widest r).toTy ∧ Fits r.toTy (l.widest r).toTy := by
  cases l <;> cases r
  · exact ⟨.inl rfl, .inl rfl⟩
  · exact ⟨.inr ⟨rfl, rfl⟩, .inl rfl⟩
  · exact ⟨.inl rfl, .inr ⟨rfl, rfl⟩⟩
  · exact ⟨.inl rfl, .inl rfl⟩

/-- Arithmetic joins two texts or works on numbers of one type. -/
theorem arith_cases {op : ArithOp} {l r t : Ty} (h : op.result? l r = some t) :
    (∃ n : Numeric, t = n.toTy ∧ Fits l t ∧ Fits r t ∧ arithInstr op t = .ok (.arith op n)) ∨
      (op = .add ∧ l = .string ∧ r = .string ∧ t = .string ∧ arithInstr op t = .ok .concat) := by
  unfold ArithOp.result? at h
  split at h
  · next a b ha hb =>
    rw [Ty.numeric?_eq_some_iff] at ha hb
    subst ha hb
    obtain rfl := Option.some.inj h
    obtain ⟨hl, hr⟩ := fits_widest a b
    refine .inl ⟨a.widest b, rfl, hl, hr, ?_⟩
    cases a.widest b <;> rfl
  · split at h
    · next heq =>
      obtain ⟨rfl, rfl, rfl⟩ := heq
      obtain rfl := Option.some.inj h
      exact .inr ⟨rfl, rfl, rfl, rfl, rfl⟩
    · cases h

theorem logic_cases {l r t : Ty} (h : LogicOp.result? l r = some t) :
    l = .boolean ∧ r = .boolean ∧ t = .boolean := by
  unfold LogicOp.result? at h
  split at h
  · next heq => exact ⟨heq.1, heq.2, (Option.some.inj h).symm⟩
  · cases h

/-- Two texts are compared by their equality, other operands as numbers of one type. -/
theorem comparison_cases {op : Comparison} {l r t : Ty} (h : op.result? l r = some t) :
    (∃ ty n, comparisonPlan op l r = .ok (ty, [], n) ∧ Fits l ty ∧ Fits r ty ∧ Compares n ty ∧
        (ty = n.toTy ∨ ty = .boolean ∧ n = .integer ∧ op.isEquality = true)) ∨
      (comparisonPlan op l r = .ok (.string, [.strEq, .pushInt 1], .integer) ∧ l = .string ∧
        r = .string ∧ op.isEquality = true) := by
  unfold Comparison.result? at h
  split at h
  · next hnum =>
    obtain ⟨hl, hr⟩ := Bool.and_eq_true_iff.mp hnum
    obtain ⟨a, ha⟩ := Option.isSome_iff_exists.mp hl
    obtain ⟨b, hb⟩ := Option.isSome_iff_exists.mp hr
    rw [Ty.numeric?_eq_some_iff] at ha hb
    subst ha hb
    obtain ⟨hl, hr⟩ := fits_widest a b
    refine .inl ⟨(a.widest b).toTy, a.widest b, ?_, hl, hr, ?_, .inl rfl⟩
    · cases a <;> cases b <;> rfl
    · cases a.widest b
      · exact .inl rfl
      · rfl
  · split at h
    · next heq =>
      simp only [Bool.and_eq_true, Bool.or_eq_true, decide_eq_true_eq] at heq
      obtain ⟨⟨hop, rfl⟩, rfl | rfl⟩ := heq
      · refine .inr ⟨?_, rfl, rfl, hop⟩
        simp [comparisonPlan, Ty.numeric?, hop]
      · refine .inl ⟨.boolean, .integer, ?_, .refl _, .refl _, .inr rfl, .inr ⟨rfl, rfl, hop⟩⟩
        simp [comparisonPlan, Ty.numeric?, hop]
    · cases h

/-- How operands of a type are compared: as numbers, or as texts, of which the equality is compared
with one. -/
inductive ComparedBy (op : Comparison) : Ty → List Instr → Numeric → Prop
  | numbers {ty : Ty} {n : Numeric} (h : Compares n ty) : ComparedBy op ty [] n
  | texts (h : op.isEquality = true) : ComparedBy op .string [.strEq, .pushInt 1] .integer

/-- The plan of a comparison brings its operands to the type in which they are compared. -/
theorem comparison_planned {op : Comparison} {l r t ty : Ty} {between : List Instr} {n : Numeric}
    (h : op.result? l r = some t) (hp : comparisonPlan op l r = .ok (ty, between, n)) :
    Fits l ty ∧ Fits r ty ∧ ComparedBy op ty between n := by
  rcases comparison_cases h with ⟨ty', n', hp', hl, hr, hcmp, _⟩ | ⟨hp', hl, hr, hop⟩
  · rw [hp] at hp'
    cases hp'
    exact ⟨hl, hr, .numbers hcmp⟩
  · rw [hp] at hp'
    cases hp'
    exact ⟨.inl hl, .inl hr, .texts hop⟩

/-- Arithmetic that has a result has an instruction, and its operands have values. -/
theorem exists_arithInstr {op : ArithOp} {l r t : Ty} (h : op.result? l r = some t) :
    ∃ i, arithInstr op t = .ok i ∧ l.isValue = true ∧ r.isValue = true := by
  rcases arith_cases h with ⟨n, rfl, hl, hr, hi⟩ | ⟨rfl, rfl, rfl, rfl, hi⟩
  · exact ⟨_, hi, hl.isValue (isValue_of_numeric n), hr.isValue (isValue_of_numeric n)⟩
  · exact ⟨_, hi, rfl, rfl⟩

/-- A comparison that has a result has a plan, and its operands have values. -/
theorem exists_comparisonPlan {op : Comparison} {l r t : Ty} (h : op.result? l r = some t) :
    ∃ plan, comparisonPlan op l r = .ok plan ∧ l.isValue = true ∧ r.isValue = true := by
  rcases comparison_cases h with ⟨ty, n, hp, hl, hr, _, hty⟩ | ⟨hp, rfl, rfl, _⟩
  · have hv : ty.isValue = true := by
      rcases hty with rfl | ⟨rfl, _⟩
      · exact isValue_of_numeric n
      · rfl
    exact ⟨_, hp, hl.isValue hv, hr.isValue hv⟩
  · exact ⟨_, hp, rfl, rfl⟩

/-! ### Calls -/

theorem fits_of_argumentOk {name : String} {isBuiltin : Bool} {args : List Expr} {ts : List Ty}
    (h : List.Forall₂ (ArgumentOk name isBuiltin) args ts) (hts : ∀ t ∈ ts, t.isValue = true) :
    List.Forall₂ (fun e t => e.ty.isValue = true → Fits e.ty t) args ts := by
  induction h with
  | nil => exact .nil
  | cons ha _ ih =>
    obtain ⟨ht, hts⟩ := List.forall_mem_cons.mp hts
    exact .cons (fits_of_assignableTo ht ha.1) (ih hts)

/-- A well-typed call names a function of the program, whose parameters its arguments fit, or a
built-in function. -/
theorem call_cases {hs : Array HostRoutine} {M : Methods} {fs : List FunctionDecl}
    (hM : List.Forall₂ (MethodOf hs) M.toList fs)
    (hparams : ∀ f ∈ fs, ∀ x ∈ f.params, x.ty.isValue = true) {name : String} {args : List Expr}
    {t : Ty} {targets : List Ty} {code : List Instr} {leaves : Bool}
    (hcall : CallOk fs name args t)
    (hplan : callPlan M name (args.map Expr.ty) = .ok (targets, .ok code, leaves)) :
    (∃ f, CallsFunction hs fs name args.length targets code leaves f ∧ t = f.returnType ∧
        f ∈ fs ∧ args.length = f.params.length ∧
        List.Forall₂ (fun e t => e.ty.isValue = true → Fits e.ty t) args targets) ∨
      (targets = args.map Expr.ty ∧ findFunction? fs name args.length = none ∧
        ((∀ e ∈ args, e.ty.isValue = true) → Builtin name (args.map Expr.ty) code t)) := by
  obtain ⟨sig, hsig, rfl, hargs⟩ := hcall
  unfold signature? at hsig
  have hcases := callPlan_cases hM hplan
  rw [List.length_map] at hcases
  rcases hcases with ⟨f, hf⟩ | ⟨hnone, htemplate, htargets, _⟩
  · rw [hf.found] at hsig
    obtain rfl := Option.some.inj hsig
    have hmem : f ∈ fs := List.mem_of_find?_eq_some hf.found
    refine .inl ⟨f, hf, rfl, hmem, ?_, ?_⟩
    · rw [hargs.length_eq]
      simp [signatureOf]
    · rw [hf.targets]
      refine fits_of_argumentOk hargs fun t ht => ?_
      obtain ⟨x, hx, rfl⟩ := List.mem_map.mp ht
      exact hparams f hmem x hx
  · rw [hnone] at hsig
    refine .inr ⟨htargets, hnone, fun hval => ?_⟩
    obtain ⟨code', hb⟩ := builtin_of_callOk hsig hargs hval
    have hcode := hb.template?.1
    rw [htemplate] at hcode
    cases hcode
    exact hb

end Quill.Lowering
