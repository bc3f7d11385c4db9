import Quill.Code.Effect
import Quill.Lowering.Expr

/-! # The choice of instructions

Which instructions an operation on operands of some types can become.  The types do not have to fit:
where they do not, there is no instruction. -/

namespace Quill.Lowering

open Code

theorem arithInstr_cases {op : ArithOp} {t : Ty} {i : Instr} (h : arithInstr op t = .ok i) :
    i = .concat ∨ ∃ n, i = .arith op n := by
  unfold arithInstr at h
  split at h
  · cases h
    exact .inl rfl
  · split at h
    · cases h
      exact .inr ⟨_, rfl⟩
    · cases h

theorem elementInstr_cases {t : Ty} {count : Nat} {i : Instr} (h : elementInstr t count = .ok i) :
    (count = 1 ∧ (i = .loadElem ∨ i = .intrinsic .charAt)) ∨ i = .arrayGet count := by
  unfold elementInstr at h
  split at h
  · split at h
    · next hrank =>
      obtain rfl := Except.ok.inj h
      subst hrank
      split
      · next hone => exact .inl ⟨hone, .inl rfl⟩
      · exact .inr rfl
    · cases h
  · split at h
    · next hone =>
      cases h
      exact .inl ⟨hone.2, .inr rfl⟩
    · cases h

/-- Between two operands and the branch on their comparison, texts are compared. -/
theorem comparisonPlan_between {op : Comparison} {l r ty : Ty} {between : List Instr} {n : Numeric}
    (h : comparisonPlan op l r = .ok (ty, between, n)) :
    between = [] ∨ between = [.strEq, .pushInt 1] := by
  unfold comparisonPlan at h
  split at h
  · cases h
    exact .inl rfl
  · split at h
    · cases h
      exact .inr rfl
    · split at h
      · cases h
        exact .inl rfl
      · cases h

/-- The code of a built-in function is no more than one operation, which takes the arguments and
leaves what the function returns. -/
def IsTemplate (argc : Nat) (leaves : Bool) (code : List Instr) : Prop :=
  (code = [] ∧ argc = valueCount leaves) ∨
    ∃ op, code = [.intrinsic op] ∧ op.effect = ⟨argc, valueCount leaves⟩

theorem textTemplate_cases {t : Ty} {code : List Instr} (h : textTemplate t = .ok code) :
    IsTemplate 1 true code := by
  cases t with
  | integer | float | boolean =>
    cases h
    exact .inr ⟨_, rfl, rfl⟩
  | string =>
    cases h
    exact .inl ⟨rfl, rfl⟩
  | _ => cases h

theorem lengthTemplate_cases {t : Ty} {code : List Instr} (h : lengthTemplate t = .ok code) :
    IsTemplate 1 true code := by
  cases t with
  | string | array =>
    cases h
    exact .inr ⟨_, rfl, rfl⟩
  | _ => cases h

theorem template_cases {name : String} {args : List Ty} {code : List Instr}
    (h : template? name args = some (.ok code)) :
    IsTemplate args.length (builtinReturnsValue name) code := by
  unfold template? at h
  split at h
  · split at h
    · next hname =>
      cases h
      subst hname
      exact .inr ⟨_, rfl, rfl⟩
    · cases h
  · next t =>
    iterate 4
      split at h
      · next hname =>
        cases h
        subst hname
        exact .inr ⟨_, rfl, rfl⟩
    split at h
    · next hname =>
      subst hname
      exact textTemplate_cases (Option.some.inj h)
    · split at h
      · next hname =>
        subst hname
        exact lengthTemplate_cases (Option.some.inj h)
      · cases h
  · cases h

end Quill.Lowering
