import Quill.Proofs.Lowering.Image
import Quill.Proofs.Typing.Rules

/-! # Calls in well-typed trees

What lowering makes of a call and what the typing rules say of it, brought together: a call names a
function with a body, an external function, or a built-in function.  `Builtin` lists the built-in
functions by the types that they take; it is all that later proofs know of them. -/

namespace Quill.Lowering

open Code Typing

/-! ### Built-in functions -/

/-- A built-in function on arguments of some types: its code and the type of its result. -/
inductive Builtin : String → List Ty → List Instr → Ty → Prop
  | print : Builtin "print" [.string] [.intrinsic .print] .void
  | println : Builtin "println" [.string] [.intrinsic .printLn] .void
  | readln : Builtin "readln" [] [.intrinsic .readLn] .string
  | toint : Builtin "toint" [.string] [.intrinsic .parseInt] .integer
  | tofloat : Builtin "tofloat" [.string] [.intrinsic .parseFloat] .float
  | integerText : Builtin "tostr" [.integer] [.intrinsic .intToStr] .string
  | floatText : Builtin "tostr" [.float] [.intrinsic .floatToStr] .string
  | booleanText : Builtin "tostr" [.boolean] [.intrinsic .boolToStr] .string
  | stringText : Builtin "tostr" [.string] [] .string
  | stringLength : Builtin "length" [.string] [.intrinsic .strLen] .integer
  | arrayLength (element : Element) (rank : Nat) :
    Builtin "length" [.array element rank] [.intrinsic .arrayLen] .integer

theorem Builtin.template? {name : String} {args : List Ty} {code : List Instr} {t : Ty}
    (h : Builtin name args code t) :
    template? name args = some (.ok code) ∧ builtinReturnsValue name = t.isValue := by
  cases h <;> exact ⟨rfl, rfl⟩

theorem eq_of_assignableTo {t target : Ty} (ht : t.isValue = true)
    (h : t.assignableTo target = true) (hn : target.numeric? = none)
    (hu : target ≠ .undefined) : t = target := by
  cases t <;> cases target <;> simp_all [Ty.assignableTo, Ty.isValue, Ty.numeric?]

theorem builtinSignature?_cases {name : String} {arity : Nat} {sig : Signature}
    (h : builtinSignature? name arity = some sig) :
    (name = "print" ∧ sig = ⟨[.string], .void, true⟩) ∨
    (name = "println" ∧ sig = ⟨[.string], .void, true⟩) ∨
    (name = "readln" ∧ sig = ⟨[], .string, true⟩) ∨
    (name = "tostr" ∧ sig = ⟨[.undefined], .string, true⟩) ∨
    (name = "toint" ∧ sig = ⟨[.string], .integer, true⟩) ∨
    (name = "tofloat" ∧ sig = ⟨[.string], .float, true⟩) ∨
    (name = "length" ∧ sig = ⟨[.undefined], .integer, true⟩) := by
  unfold builtinSignature? at h
  obtain ⟨b, hb, rfl⟩ := Option.map_eq_some_iff.mp h
  have hname : b.1 = name ∧ b.2.1.length = arity := by simpa using List.find?_some hb
  have hmem := List.mem_of_find?_eq_some hb
  obtain ⟨rfl, -⟩ := hname
  simp only [Scope.builtins, List.mem_cons, List.not_mem_nil, or_false] at hmem
  rcases hmem with rfl | rfl | rfl | rfl | rfl | rfl | rfl <;> simp

theorem forall₂_singleton {α β : Type} {R : α → β → Prop} {l : List α} {b : β}
    (h : List.Forall₂ R l [b]) : ∃ a, l = [a] ∧ R a b := by
  obtain ⟨a, l, hr, hnil, rfl⟩ := List.forall₂_cons_right_iff.mp h
  cases hnil
  exact ⟨a, rfl, hr⟩

/-- A well-typed call of a built-in function with arguments that have values. -/
theorem builtin_of_callOk {name : String} {args : List Expr} {sig : Signature}
    (hsig : builtinSignature? name args.length = some sig)
    (hargs : List.Forall₂ (ArgumentOk name sig.isBuiltin) args sig.params)
    (hval : ∀ e ∈ args, e.ty.isValue = true) :
    ∃ code, Builtin name (args.map Expr.ty) code sig.returnType := by
  have htext : ∀ e ∈ args, e.ty.assignableTo .string = true → e.ty = .string := fun e he h =>
    eq_of_assignableTo (hval e he) h rfl (by simp)
  rcases builtinSignature?_cases hsig with ⟨rfl, rfl⟩ | ⟨rfl, rfl⟩ | ⟨rfl, rfl⟩ | ⟨rfl, rfl⟩ |
    ⟨rfl, rfl⟩ | ⟨rfl, rfl⟩ | ⟨rfl, rfl⟩
  · obtain ⟨e, rfl, h, _⟩ := forall₂_singleton hargs
    rw [List.map_singleton, htext e (List.mem_singleton_self e) h]
    exact ⟨_, .print⟩
  · obtain ⟨e, rfl, h, _⟩ := forall₂_singleton hargs
    rw [List.map_singleton, htext e (List.mem_singleton_self e) h]
    exact ⟨_, .println⟩
  · cases hargs
    exact ⟨_, .readln⟩
  · obtain ⟨e, rfl, _, haccepts⟩ := forall₂_singleton hargs
    have hv := hval e (List.mem_singleton_self e)
    have hscalar : e.ty.isScalar = true := haccepts rfl hv
    rw [List.map_singleton]
    cases hty : e.ty with
    | integer => exact ⟨_, .integerText⟩
    | float => exact ⟨_, .floatText⟩
    | string => exact ⟨_, .stringText⟩
    | boolean => exact ⟨_, .booleanText⟩
    | _ =>
      rw [hty] at hscalar
      cases hscalar
  · obtain ⟨e, rfl, h, _⟩ := forall₂_singleton hargs
    rw [List.map_singleton, htext e (List.mem_singleton_self e) h]
    exact ⟨_, .toint⟩
  · obtain ⟨e, rfl, h, _⟩ := forall₂_singleton hargs
    rw [List.map_singleton, htext e (List.mem_singleton_self e) h]
    exact ⟨_, .tofloat⟩
  · obtain ⟨e, rfl, _, haccepts⟩ := forall₂_singleton hargs
    have hv := hval e (List.mem_singleton_self e)
    have hlength : e.ty.hasLength = true := haccepts rfl hv
    rw [List.map_singleton]
    cases hty : e.ty with
    | string => exact ⟨_, .stringLength⟩
    | array element rank => exact ⟨_, .arrayLength element rank⟩
    | _ =>
      rw [hty] at hlength
      cases hlength

/-! ### Finding methods -/

theorem MethodOf.hasSignature {hs : Array HostRoutine} {m : Method} {f : FunctionDecl}
    (h : MethodOf hs m f) (name : String) (arity : Nat) :
    m.hasSignature name arity = decide (f.name = name ∧ f.arity = arity) := by
  unfold Method.hasSignature Method.arity FunctionDecl.arity
  rw [h.name, h.params, List.length_map]

/-- The first method with a signature is that of the first function with it. -/
theorem findIdx?_methods {hs : Array HostRoutine} {M : Methods} {fs : List FunctionDecl}
    (h : List.Forall₂ (MethodOf hs) M.toList fs) (name : String) (arity : Nat) :
    M.findIdx? (·.hasSignature name arity) =
      fs.findIdx? fun f => f.name = name ∧ f.arity = arity := by
  obtain ⟨ms⟩ := M
  rw [List.findIdx?_toArray]
  simp only at h
  induction h with
  | nil => rfl
  | cons hm _ ih => rw [List.findIdx?_cons, List.findIdx?_cons, hm.hasSignature, ih]

theorem Forall₂.getElem? {α β : Type} {R : α → β → Prop} {l : List α} {m : List β}
    (h : List.Forall₂ R l m) {k : Nat} {b : β} (hb : m[k]? = some b) :
    ∃ a, l[k]? = some a ∧ R a b := by
  induction h generalizing k with
  | nil => cases hb
  | cons hr _ ih =>
    cases k with
    | zero => exact ⟨_, rfl, Option.some.inj hb ▸ hr⟩
    | succ k => exact ih hb

/-- How a call of a function of the program is lowered. -/
structure CallsFunction (hs : Array HostRoutine) (fs : List FunctionDecl) (name : String)
    (arity : Nat) (targets : List Ty) (code : List Instr) (leaves : Bool) (f : FunctionDecl) :
    Prop where
  found : findFunction? fs name arity = some f
  targets : targets = f.params.map (·.ty)
  leaves : leaves = f.returnType.isValue
  code : (∃ id, fs[id]? = some f ∧ f.external = none ∧ code = [.call id arity]) ∨
    ∃ package h, f.external = some package ∧ code = [.callHost h] ∧
      hs[h]? = some ⟨package, f.name, f.params.map (·.ty), f.returnType⟩

theorem callPlan_cases {hs : Array HostRoutine} {M : Methods} {fs : List FunctionDecl}
    (hM : List.Forall₂ (MethodOf hs) M.toList fs) {name : String} {args targets : List Ty}
    {code : List Instr} {leaves : Bool}
    (h : callPlan M name args = .ok (targets, .ok code, leaves)) :
    (∃ f, CallsFunction hs fs name args.length targets code leaves f) ∨
      (findFunction? fs name args.length = none ∧ template? name args = some (.ok code) ∧
        targets = args ∧ leaves = builtinReturnsValue name) := by
  unfold callPlan at h
  rw [findIdx?_methods hM] at h
  have hfind : findFunction? fs name args.length = _ := List.find?_eq_bind_findIdx?_getElem?
  cases hidx : fs.findIdx? (fun f => f.name = name ∧ f.arity = args.length) with
  | none =>
    rw [hidx] at h hfind
    refine .inr ⟨hfind, ?_⟩
    dsimp only at h
    split at h
    · cases h
    · cases h
    · next htemplate =>
      cases h
      exact ⟨htemplate, rfl, rfl⟩
  | some id =>
    rw [hidx] at h hfind
    obtain ⟨hlt, _⟩ := List.findIdx?_eq_some_iff_getElem.mp hidx
    have hf : fs[id]? = some fs[id] := List.getElem?_eq_getElem hlt
    obtain ⟨m, hm, hmf⟩ := Forall₂.getElem? hM hf
    rw [Array.getElem?_toList] at hm
    rw [Option.bind_some, hf] at hfind
    dsimp only at h
    rw [hm] at h
    simp only [Except.ok.injEq, Prod.mk.injEq] at h
    obtain ⟨rfl, hcode, rfl⟩ := h
    refine .inl ⟨fs[id], hfind, hmf.params, congrArg Ty.isValue hmf.returnType, ?_⟩
    cases hext : fs[id].external with
    | none =>
      rw [hmf.body hext] at hcode
      dsimp only at hcode
      split at hcode
      · exact .inl ⟨id, hf, rfl, (Except.ok.inj hcode).symm⟩
      · cases hcode
    | some package =>
      obtain ⟨h, hhost, hr⟩ := hmf.host package hext
      rw [hhost] at hcode
      exact .inr ⟨package, h, rfl, (Except.ok.inj hcode).symm, hr⟩

/-! ### Code that leaves a value -/

section

variable {fs : List FunctionDecl} {M : Methods} {m : Method} {strings : Array String}
  {hs : Array HostRoutine} {Γ : Ctx} {visible : Visible}

theorem arithInstr_isValue {op : ArithOp} {t : Ty} {i : Instr} (h : arithInstr op t = .ok i) :
    t.isValue = true := by
  cases t with
  | void => cases op <;> cases h
  | undefined => cases op <;> cases h
  | _ => rfl

/-- The code of a well-typed expression leaves a value exactly if its type has values. -/
theorem ExprCode.leaves_eq (hM : List.Forall₂ (MethodOf hs) M.toList fs) (hΓ : Γ.Valued) {e : Expr}
    {leaves : Bool} {a b : Nat} (hok : ExprOk fs Γ e)
    (hcode : ExprCode M m strings visible e leaves a b) : leaves = e.ty.isValue := by
  cases e with
  | literal n v =>
    rw [hcode.1, show (Expr.literal n v).ty = v.ty from hok]
    cases v <;> rfl
  | name n x =>
    obtain ⟨v, hv, _, hty⟩ := hok
    rw [hcode.1, show (Expr.name n x).ty = v.ty from hty.symm, hΓ.find? hv]
  | arith n op l r =>
    obtain ⟨rfl, i, _, _, hi, _⟩ := hcode
    exact (arithInstr_isValue hi).symm
  | compare n op l r =>
    rw [hcode.1, show (Expr.compare n op l r).ty = .boolean from
      hok.2.2.eq_boolean fun t => Comparison.eq_boolean_of_result?]
    rfl
  | logic n op l r =>
    rw [hcode.1, show (Expr.logic n op l r).ty = .boolean from
      hok.2.2.eq_boolean fun t => LogicOp.eq_boolean_of_result?]
    rfl
  | not n x =>
    rw [hcode.1, show (Expr.not n x).ty = .boolean from hok.2.2]
    rfl
  | index n x is =>
    obtain ⟨⟨base, ⟨v, hv, _, rfl⟩, hel⟩, _⟩ := hok
    rw [hcode.1]
    exact (hel.isValue (hΓ.find? hv)).symm
  | call n f args =>
    obtain ⟨targets, code, k, hplan, _⟩ := hcode
    obtain ⟨_, sig, hsig, hret, _⟩ := hok
    rw [show (Expr.call n f args).ty = sig.returnType from hret.symm]
    unfold signature? at hsig
    rcases callPlan_cases hM hplan with ⟨g, hg⟩ | ⟨hnone, _, _, rfl⟩
    · have hfound := hg.found
      rw [List.length_map] at hfound
      rw [hfound] at hsig
      obtain rfl := Option.some.inj hsig
      exact hg.leaves
    · rw [List.length_map] at hnone
      rw [hnone] at hsig
      rcases builtinSignature?_cases hsig with ⟨rfl, rfl⟩ | ⟨rfl, rfl⟩ | ⟨rfl, rfl⟩ | ⟨rfl, rfl⟩ |
        ⟨rfl, rfl⟩ | ⟨rfl, rfl⟩ | ⟨rfl, rfl⟩
      all_goals rfl
  | newArray n e dims =>
    rw [hcode.1, show (Expr.newArray n e dims).ty = .array e dims.length from hok.2.2.2]
    rfl

end

end Quill.Lowering
