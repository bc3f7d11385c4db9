import Quill.Proofs.Code.Shape
import Quill.Proofs.Lowering.Operands
import Quill.Proofs.Lowering.Visible

/-! # The code of a well-typed program is safe

Code that is laid out for a well-typed tree meets fitting operands at every instruction.  The code
of an expression leads from any shape to the shape with its type on top; the code of a statement
leads from no operands to no operands, with the slots assigned that the context after the statement
calls assigned, and it cannot be left at its end if every path through the statement returns.

`ImageOf.verified` puts this together for every method of an image. -/

namespace Quill.Lowering

open Code Typing

section

variable {image : Image} {m : Method} {A : Nat → Prop} {σ : List Ty} {a b : Nat}

/-! ### Pieces of code -/

theorem CodeAt.getElem? {is : List Instr} (h : CodeAt m a is) (k : Nat) {i : Instr}
    (hi : is[k]? = some i) : m.code[a + k]? = some i := h k i hi

/-- The code of a truth value pushes zero or one whether the branch is taken or not. -/
theorem truth_reaches {branch : Nat → Instr} {τ : List Ty} (taken : Bool)
    (hg : ∀ yes pos, m.position? yes = some pos →
      Goes image m (branch yes) ⟨τ, A⟩ (some ⟨σ, A⟩) (some (pos, ⟨σ, A⟩)))
    (h : TruthCode m branch (if taken then 1 else 0) a b) :
    Reaches image m (exitAt b (some ⟨.boolean :: σ, A⟩)) a ⟨τ, A⟩ := by
  obtain ⟨yes, no, stop, hcode, hyes, hstop, rfl⟩ := h
  have hother : (1 - if taken then 1 else 0 : Int64) = if !taken then 1 else 0 := by
    cases taken <;> decide
  rw [hother] at hcode
  have hend : Reaches image m (exitAt (a + 7) (some ⟨.boolean :: σ, A⟩)) (a + 6)
      ⟨.boolean :: σ, A⟩ :=
    .next (hcode.getElem? 6 rfl) (.takes _ A (.label stop)) (.exit rfl)
  refine .step (hcode.getElem? 0 rfl) (hg yes _ hyes) (fun S' hS' => ?_) fun pos S' hS' => ?_
  · cases hS'
    refine .next (hcode.getElem? 1 rfl) (.takes σ A (.label no)) ?_
    refine .next (hcode.getElem? 2 rfl) (.takes σ A (.pushTruth !taken)) ?_
    refine .step (hcode.getElem? 3 rfl) (.jump _ hstop) (fun _ h => nomatch h) fun pos S' hS' => ?_
    cases hS'
    exact hend
  · cases hS'
    refine .next (hcode.getElem? 4 rfl) (.takes σ A (.label yes)) ?_
    exact .next (hcode.getElem? 5 rfl) (.takes σ A (.pushTruth taken)) hend

theorem widened_reaches {t target : Ty} (hf : Fits t target) (h : Widened m t target a b) :
    Reaches image m (exitAt b (some ⟨target :: σ, A⟩)) a ⟨t :: σ, A⟩ := by
  unfold Widened at h
  split at h
  · next hconv =>
    obtain ⟨rfl, rfl⟩ := hconv
    obtain ⟨hi, rfl⟩ := h
    exact .next hi (.takes σ A .intToFloat) (.exit rfl)
  · next hconv =>
    subst h
    rw [hf.resolve_right hconv]
    exact .exit rfl

theorem discard_reaches {leaves : Bool} {t : Ty} (hl : leaves = t.isValue)
    (h : DiscardCode m leaves a b) :
    Reaches image m (exitAt b (some ⟨σ, A⟩)) a ⟨resultTys t ++ σ, A⟩ := by
  unfold DiscardCode at h
  unfold resultTys
  cases hv : t.isValue with
  | true =>
    rw [hl, hv, if_pos rfl] at h
    obtain ⟨hi, rfl⟩ := h
    exact .next hi (.takes σ A (.pop t)) (.exit rfl)
  | false =>
    rw [hl, hv, if_neg (by decide)] at h
    subst h
    exact .exit rfl

theorem load_reaches (image : Image) {n : Nat} {y : Binding} (hy : SlotOk m n y)
    (hA : ∀ k, y.slot = .local k → A k) (h : m.code[a]? = some y.slot.load) :
    Reaches image m (exitAt (a + 1) (some ⟨y.ty :: σ, A⟩)) a ⟨σ, A⟩ := by
  unfold SlotOk at hy
  cases hs : y.slot with
  | arg k =>
    rw [hs] at hy h
    exact .next h (.loadArg σ A hy) (.exit rfl)
  | «local» k =>
    rw [hs] at hy h
    obtain ⟨_, x, hx⟩ := hy
    exact .next h (.loadLocal σ hx (hA k hs)) (.exit rfl)

/-- The code of an operand is that of its value and the conversion. -/
theorem operand_reaches {t target : Ty} {k : Nat} (hv : t.isValue = true) (hf : Fits t target)
    (hw : Widened m t target k b)
    (h : Reaches image m (exitAt k (some ⟨resultTys t ++ σ, A⟩)) a ⟨σ, A⟩) :
    Reaches image m (exitAt b (some ⟨target :: σ, A⟩)) a ⟨σ, A⟩ := by
  unfold resultTys at h
  rw [if_pos hv] at h
  exact h.seq (widened_reaches hf hw)

theorem comparison_reaches {op : Comparison} {ty : Ty} {between : List Instr} {n : Numeric}
    (h : ComparedBy op ty between n) (hcode : CodeAt m a between)
    (htruth : TruthCode m (.branchCmp op n) 1 (a + between.length) b) :
    Reaches image m (exitAt b (some ⟨.boolean :: σ, A⟩)) a ⟨ty :: ty :: σ, A⟩ := by
  cases h with
  | numbers hcmp =>
    refine truth_reaches true (fun yes pos hpos => ?_) htruth
    exact .branchCmp σ _ hpos hcmp hcmp
  | texts hop =>
    refine .next (hcode.getElem? 0 rfl) (.takes σ _ .strEq) ?_
    refine .next (hcode.getElem? 1 rfl) (.takes (.boolean :: σ) _ (.pushInt 1)) ?_
    refine truth_reaches true (fun yes pos hpos => ?_) htruth
    exact .branchCmp σ _ hpos (.inl rfl) (.inr rfl)

/-! ### Operations -/

theorem literal_takes {image : Image} {v : Literal} {i : Instr}
    (h : LiteralInstr image.strings i v) : Takes image i [] (resultTys v.ty) := by
  cases v with
  | integer v => cases h; exact .pushInt v
  | float bits => cases h; exact .pushFloat bits
  | boolean b => cases h; exact .pushTruth b
  | string s =>
    obtain ⟨id, rfl, hid⟩ := h
    exact .pushStr hid

/-- The instruction of an arithmetic operator takes two operands of the type of its result. -/
theorem arith_takes (image : Image) {op : ArithOp} {l r t : Ty} {i : Instr}
    (h : op.result? l r = some t) (hi : arithInstr op t = .ok i) :
    Fits l t ∧ Fits r t ∧ t.isValue = true ∧ Takes image i [t, t] [t] := by
  rcases arith_cases h with ⟨n, rfl, hl, hr, hi'⟩ | ⟨rfl, rfl, rfl, rfl, hi'⟩
  · rw [hi] at hi'
    cases hi'
    exact ⟨hl, hr, isValue_of_numeric n, .arith op n⟩
  · rw [hi] at hi'
    cases hi'
    exact ⟨.refl _, .refl _, rfl, .concat⟩

theorem logic_takes (image : Image) (op : LogicOp) :
    Takes image (logicInstr op) [.boolean, .boolean] [.integer] := by
  cases op with
  | and => exact .logic .mul (by decide)
  | or => exact .logic .add (by decide)

/-- The code of a built-in function is one operation; a text already is its text. -/
theorem builtin_cases (image : Image) {name : String} {tys : List Ty} {code : List Instr} {t : Ty}
    (h : Builtin name tys code t) :
    (∃ i, code = [.intrinsic i] ∧ Takes image (.intrinsic i) tys.reverse (resultTys t)) ∨
      (name = "tostr" ∧ tys = [.string] ∧ code = [] ∧ t = .string) := by
  cases h with
  | print => exact .inl ⟨_, rfl, .intrinsic .print⟩
  | println => exact .inl ⟨_, rfl, .intrinsic .printLn⟩
  | readln => exact .inl ⟨_, rfl, .intrinsic .readLn⟩
  | toint => exact .inl ⟨_, rfl, .intrinsic .parseInt⟩
  | tofloat => exact .inl ⟨_, rfl, .intrinsic .parseFloat⟩
  | integerText => exact .inl ⟨_, rfl, .intrinsic .intToStr⟩
  | floatText => exact .inl ⟨_, rfl, .intrinsic .floatToStr⟩
  | booleanText => exact .inl ⟨_, rfl, .intrinsic .boolToStr⟩
  | stringText => exact .inr ⟨rfl, rfl, rfl, rfl⟩
  | stringLength => exact .inl ⟨_, rfl, .intrinsic .strLen⟩
  | arrayLength e r => exact .inl ⟨_, rfl, .intrinsic (.arrayLen e r)⟩

/-- The code of a built-in function, after that of its arguments. -/
theorem builtin_reaches {name : String} {tys : List Ty} {code : List Instr} {t : Ty}
    (hb : Builtin name tys code t) (h : CodeAt m a code) :
    Reaches image m (exitAt (a + code.length) (some ⟨resultTys t ++ σ, A⟩)) a
      ⟨tys.reverse ++ σ, A⟩ := by
  rcases builtin_cases image hb with ⟨i, rfl, htakes⟩ | ⟨_, rfl, rfl, rfl⟩
  · exact .next (h 0 _ rfl) (.takes σ A htakes) (.exit rfl)
  · exact .exit rfl

end

/-! ### Expressions -/

section

variable {image : Image} {M : Methods} {fs : List FunctionDecl} {m : Method} {p : Point} {Γ : Ctx}

/-- What is known where code stands: the image is that of the functions, and the visible variables
are those of the context and have slots. -/
structure Site (image : Image) (M : Methods) (fs : List FunctionDecl) (m : Method) (p : Point)
    (Γ : Ctx) : Prop where
  image : ImageOf image M fs
  params : ∀ f ∈ fs, ∀ x ∈ f.params, x.ty.isValue = true
  valued : Γ.Valued
  agrees : Agrees p.visible Γ
  housed : Housed m p

/-- A variable that may be read is in a slot that has been assigned. -/
theorem Site.read (h : Site image M fs m p Γ) {x : String} {t : Ty} {y : Binding}
    (hr : ReadOk Γ x t) (hy : p.visible.lookup x = some y) :
    y.ty = t ∧ SlotOk m p.slots y ∧ ∀ k, y.slot = .local k → assignedSlots p.visible Γ k := by
  obtain ⟨v, hv, ha, rfl⟩ := hr
  obtain ⟨v', hv', hty, hmem⟩ := h.agrees.find? hy
  rw [hv] at hv'
  obtain rfl := Option.some.inj hv'
  exact ⟨hty, h.housed.lookup hy, fun k hk => ⟨_, hmem, ha, hk⟩⟩

theorem Site.isValue (h : Site image M fs m p Γ) {e : Expr} {a b : Nat} (hok : ExprOk fs Γ e)
    (hc : ExprCode M m image.strings p.visible e true a b) : e.ty.isValue = true :=
  (hc.leaves_eq h.image.declared h.valued hok).symm

theorem Site.args_isValue (h : Site image M fs m p Γ) :
    ∀ {args : List Expr} {targets : List Ty} {a b : Nat}, ExprsOk fs Γ args →
      ArgsCode M m image.strings p.visible targets args a b → targets.length = args.length →
      ∀ e ∈ args, e.ty.isValue = true
  | [], _, _, _, _, _, _ => fun _ he => absurd he List.not_mem_nil
  | e :: es, t :: ts, a, b, hok, hc, hlen => by
    obtain ⟨k, ⟨ke, he, _⟩, hes⟩ := hc
    exact List.forall_mem_cons.mpr
      ⟨h.isValue hok.1 he, h.args_isValue hok.2 hes (Nat.succ.inj hlen)⟩

theorem Site.call_goes (h : Site image M fs m p Γ) {name : String} {args : List Expr}
    {targets : List Ty} {code : List Instr} {leaves : Bool} {f : FunctionDecl}
    (hf : CallsFunction image.hostRoutines fs name args.length targets code leaves f)
    (hlen : args.length = f.params.length) :
    ∃ i, code = [i] ∧ ∀ σ A, Goes image m i ⟨(f.params.map (·.ty)).reverse ++ σ, A⟩
      (some ⟨resultTys f.returnType ++ σ, A⟩) none := by
  rcases hf.code with ⟨id, hid, hbody, rfl⟩ | ⟨package, k, _, rfl, hk⟩
  · obtain ⟨c, hc, hmf, _⟩ := Forall₂.getElem? h.image.methods hid
    rw [Array.getElem?_toList] at hc
    refine ⟨_, rfl, fun σ A => ?_⟩
    have hg := Goes.call (m := m) σ A hc (hmf.body hbody)
    rw [hmf.params, hmf.returnType, List.length_map, ← hlen] at hg
    exact hg
  · exact ⟨_, rfl, fun σ A => .takes σ A (.callHost hk)⟩

theorem index_fits {is : List Expr} (h : ∀ i ∈ is, IndexOk i) :
    List.Forall₂ (fun e t => e.ty.isValue = true → Fits e.ty t) is
      (List.replicate is.length .integer) := by
  induction is with
  | nil => exact .nil
  | cons i is ih =>
    obtain ⟨hi, his⟩ := List.forall_mem_cons.mp h
    exact .cons (fun hv => .inl (hi.resolve_right (ne_undefined_of_isValue hv))) (ih his)

theorem own_fits (es : List Expr) :
    List.Forall₂ (fun e t => e.ty.isValue = true → Fits e.ty t) es (es.map Expr.ty) := by
  rw [List.forall₂_map_right_iff, List.forall₂_same]
  exact fun e _ _ => .refl e.ty

/-- The instruction that reads an element takes the indices and what is indexed. -/
theorem element_takes (image : Image) {base t : Ty} {count : Nat} {i : Instr}
    (hel : ElementOk base count t) (hi : elementInstr base count = .ok i) :
    t.isValue = true ∧ Takes image i (List.replicate count .integer ++ [base]) [t] := by
  cases base with
  | array element rank =>
    obtain ⟨rfl, rfl⟩ := hel
    refine ⟨isValue_toTy element, ?_⟩
    unfold elementInstr at hi
    dsimp only at hi
    rw [if_pos rfl] at hi
    obtain rfl := Except.ok.inj hi
    split
    · next hr => rw [hr]; exact .loadElem element
    · exact .arrayGet element rank
  | string =>
    obtain ⟨rfl, rfl⟩ := hel
    cases hi
    exact ⟨rfl, .intrinsic .charAt⟩
  | undefined => cases hi
  | _ => exact hel.elim

mutual

/-- The code of an expression leaves its value on top of what was there. -/
theorem expr_reaches (h : Site image M fs m p Γ) :
    ∀ {e : Expr} {leaves : Bool} {a b : Nat}, ExprOk fs Γ e →
      ExprCode M m image.strings p.visible e leaves a b → ∀ σ,
        Reaches image m (exitAt b (some ⟨resultTys e.ty ++ σ, assignedSlots p.visible Γ⟩)) a
          ⟨σ, assignedSlots p.visible Γ⟩
  | .literal n v, leaves, a, b, hok, hc, σ => by
    obtain ⟨_, rfl, i, hi, hcode⟩ := hc
    rw [show (Expr.literal n v).ty = v.ty from hok]
    exact .next hcode (.takes σ _ (literal_takes hi)) (.exit rfl)
  | .name n x, leaves, a, b, hok, hc, σ => by
    obtain ⟨_, rfl, y, hy, hcode⟩ := hc
    obtain ⟨hty, hslot, hA⟩ := h.read hok hy
    have hv : (Expr.name n x).ty.isValue = true := by
      obtain ⟨v, hv, _, hvt⟩ := hok
      rw [show (Expr.name n x).ty = v.ty from hvt.symm]
      exact h.valued.find? hv
    have hload := load_reaches image (σ := σ) hslot hA hcode
    rw [hty] at hload
    rwa [resultTys, if_pos hv]
  | .arith n op l r, leaves, a, b, hok, hc, σ => by
    obtain ⟨hlok, hrok, hres⟩ := hok
    obtain ⟨_, i, k, k', hi, ⟨kl, hl, hwl⟩, ⟨kr, hr, hwr⟩, hcode, rfl⟩ := hc
    have hvl := h.isValue hlok hl
    have hvr := h.isValue hrok hr
    obtain ⟨hfl, hfr, hv, htakes⟩ := arith_takes image (hres.result hvl hvr) hi
    have hleft := operand_reaches hvl hfl hwl (expr_reaches h hlok hl σ)
    have hright := operand_reaches hvr hfr hwr (expr_reaches h hrok hr (n.ty :: σ))
    rw [show (Expr.arith n op l r).ty = n.ty from rfl, resultTys, if_pos hv]
    exact (hleft.seq hright).seq (.next hcode (.takes σ _ htakes) (.exit rfl))
  | .compare n op l r, leaves, a, b, hok, hc, σ => by
    obtain ⟨hlok, hrok, hres⟩ := hok
    obtain ⟨_, ty, between, num, k, k', hp, ⟨kl, hl, hwl⟩, ⟨kr, hr, hwr⟩, hbt, htruth⟩ := hc
    have hvl := h.isValue hlok hl
    have hvr := h.isValue hrok hr
    have ht : (Expr.compare n op l r).ty = .boolean :=
      hres.eq_boolean fun t => Comparison.eq_boolean_of_result?
    rw [ht]
    obtain ⟨hfl, hfr, hcmp⟩ := comparison_planned (hres.result hvl hvr) hp
    have hleft := operand_reaches hvl hfl hwl (expr_reaches h hlok hl σ)
    have hright := operand_reaches hvr hfr hwr (expr_reaches h hrok hr (ty :: σ))
    exact (hleft.seq hright).seq (comparison_reaches hcmp hbt htruth)
  | .logic n op l r, leaves, a, b, hok, hc, σ => by
    obtain ⟨hlok, hrok, hres⟩ := hok
    obtain ⟨_, k, k', ⟨kl, hl, hwl⟩, ⟨kr, hr, hwr⟩, hcode, htruth⟩ := hc
    have hvl := h.isValue hlok hl
    have hvr := h.isValue hrok hr
    obtain ⟨hlt, hrt, ht⟩ := logic_cases (hres.result hvl hvr)
    rw [show (Expr.logic n op l r).ty = .boolean from ht]
    have hleft := operand_reaches hvl (.inl hlt) hwl (expr_reaches h hlok hl σ)
    have hright := operand_reaches hvr (.inl hrt) hwr (expr_reaches h hrok hr (.boolean :: σ))
    refine (hleft.seq hright).seq (.next hcode (.takes σ _ (logic_takes image op)) ?_)
    exact truth_reaches true (fun yes pos hpos => .branchIfTrue σ _ hpos (.inl rfl)) htruth
  | .not n x, leaves, a, b, hok, hc, σ => by
    obtain ⟨hxok, hxt, ht⟩ := hok
    obtain ⟨_, k, ⟨kx, hx, hw⟩, htruth⟩ := hc
    have hv := h.isValue hxok hx
    have hxt : x.ty = .boolean := hxt.resolve_right (ne_undefined_of_isValue hv)
    rw [show (Expr.not n x).ty = .boolean from ht]
    refine (operand_reaches hv (.inl hxt) hw (expr_reaches h hxok hx σ)).seq ?_
    exact truth_reaches false (fun yes pos hpos => .branchIfTrue σ _ hpos (.inr rfl)) htruth
  | .index n x is, leaves, a, b, hok, hc, σ => by
    obtain ⟨⟨base, hread, hel⟩, hisok, hint⟩ := hok
    obtain ⟨_, y, i, k, hy, hload, hargs, hi, hcode, rfl⟩ := hc
    obtain ⟨hty, hslot, hA⟩ := h.read hread hy
    have hfirst := load_reaches image (σ := σ) hslot hA hload
    have hrest := args_reaches h hisok hargs (index_fits hint) (y.ty :: σ)
    refine (hfirst.seq hrest).seq ?_
    rw [List.reverse_replicate]
    rw [hty] at hi ⊢
    obtain ⟨hv, ht⟩ := element_takes image hel hi
    rw [show (Expr.index n x is).ty = n.ty from rfl, resultTys, if_pos hv]
    have htakes := Goes.takes (m := m) σ (assignedSlots p.visible Γ) ht
    rw [List.append_assoc] at htakes
    exact .next hcode htakes (.exit rfl)
  | .call n f args, leaves, a, b, hok, hc, σ => by
    obtain ⟨hargsok, hcall⟩ := hok
    obtain ⟨targets, code, k, hplan, hargs, hcode, rfl⟩ := hc
    rcases call_cases h.image.declared h.params hcall hplan with
      ⟨g, hg, ht, _, hlen, hfits⟩ | ⟨rfl, _, hbuiltin⟩
    · obtain ⟨i, rfl, hgoes⟩ := h.call_goes hg hlen
      refine (args_reaches h hargsok hargs hfits σ).seq ?_
      rw [show (Expr.call n f args).ty = g.returnType from ht, hg.targets]
      exact .next (hcode 0 i rfl) (hgoes σ _) (.exit rfl)
    · have hvalues := h.args_isValue hargsok hargs (by simp)
      exact (args_reaches h hargsok hargs (own_fits args) σ).seq
        (builtin_reaches (hbuiltin hvalues) hcode)
  | .newArray n e dims, leaves, a, b, hok, hc, σ => by
    obtain ⟨hdimsok, hint, _, ht⟩ := hok
    obtain ⟨_, k, hargs, _, hcode, rfl⟩ := hc
    rw [show (Expr.newArray n e dims).ty = .array e dims.length from ht]
    refine (args_reaches h hdimsok hargs (index_fits hint) σ).seq ?_
    rw [List.reverse_replicate]
    exact .next hcode (.takes σ _ (.newArray e dims.length)) (.exit rfl)

/-- The code of a list of expressions leaves their values, the last on top. -/
theorem args_reaches (h : Site image M fs m p Γ) :
    ∀ {args : List Expr} {targets : List Ty} {a b : Nat}, ExprsOk fs Γ args →
      ArgsCode M m image.strings p.visible targets args a b →
      List.Forall₂ (fun e t => e.ty.isValue = true → Fits e.ty t) args targets → ∀ σ,
        Reaches image m (exitAt b (some ⟨targets.reverse ++ σ, assignedSlots p.visible Γ⟩)) a
          ⟨σ, assignedSlots p.visible Γ⟩
  | [], _, a, b, _, hc, hfit, σ => by
    cases hfit
    have hab : b = a := by simpa [ArgsCode] using hc
    subst hab
    exact .exit rfl
  | e :: es, _, a, b, hok, hc, hfit, σ => by
    cases hfit with
    | @cons _ t _ ts hf hfits =>
      obtain ⟨k, ⟨ke, he, hw⟩, hes⟩ := hc
      have hv := h.isValue hok.1 he
      have hhead := operand_reaches hv (hf hv) hw (expr_reaches h hok.1 he σ)
      have hrest := args_reaches h hok.2 hes hfits (t :: σ)
      rw [List.reverse_cons, List.append_assoc]
      exact hhead.seq hrest

end

theorem as_reaches (h : Site image M fs m p Γ) {e : Expr} {target : Ty} {a b : Nat}
    (hok : ExprOk fs Γ e) (hfit : e.ty.isValue = true → Fits e.ty target)
    (hc : AsCode M m image.strings p.visible e target a b) (σ : List Ty) :
    Reaches image m (exitAt b (some ⟨target :: σ, assignedSlots p.visible Γ⟩)) a
      ⟨σ, assignedSlots p.visible Γ⟩ := by
  obtain ⟨k, he, hw⟩ := hc
  have hv := h.isValue hok he
  exact operand_reaches hv (hfit hv) hw (expr_reaches h hok he σ)

theorem condition_reaches (h : Site image M fs m p Γ) {e : Expr} {a b : Nat}
    (hok : ConditionOk fs Γ e) (hc : AsCode M m image.strings p.visible e .boolean a b) :
    Reaches image m (exitAt b (some ⟨[.boolean], assignedSlots p.visible Γ⟩)) a
      ⟨[], assignedSlots p.visible Γ⟩ := by
  exact as_reaches h hok.1 (fun hv => .inl (hok.2.resolve_right (ne_undefined_of_isValue hv))) hc []

/-! ### Statements -/

/-- A frame without operands where the variables of the context are assigned. -/
def between (p : Point) (Γ : Ctx) : Shape := ⟨[], assignedSlots p.visible Γ⟩

/-- The shape after a statement, unless every path through it returns. -/
def endShape (returns : Bool) (p : Point) (Γ : Ctx) : Option Shape :=
  if returns then none else some (between p Γ)

theorem between_le {Δ : Ctx} (hle : Ctx.Le Γ Δ) : (between p Δ).Le (between p Γ) :=
  ⟨rfl, fun _ hk => assignedSlots_le hle hk⟩

/-- A position only matters through the variables that are visible. -/
theorem Site.at (h : Site image M fs m p Γ) {q : Point} (hvis : q.visible = p.visible)
    (hslots : p.slots ≤ q.slots) : Site image M fs m q Γ :=
  ⟨h.image, h.params, h.valued, hvis ▸ h.agrees,
    fun x hx => (h.housed x (hvis ▸ hx)).mono hslots⟩

theorem Site.block (h : Site image M fs m p Γ) : Site image M fs m p ([] :: Γ) :=
  ⟨h.image, h.params, h.valued.nil_cons, h.agrees, h.housed⟩

theorem Site.le {Δ : Ctx} (h : Site image M fs m p Γ) (hle : Ctx.Le Γ Δ) : Site image M fs m p Δ :=
  ⟨h.image, h.params, hle.valued h.valued, h.agrees.le hle, h.housed⟩

theorem Site.after {b : Block} {q : Point} {s : Stmt} (h : Site image M fs m p (b :: Γ))
    (hok : StmtOk fs m.returnType (b :: Γ) s)
    (hc : StmtCode M m image.strings m.returnType p s q) :
    Site image M fs m q (after (b :: Γ) s) :=
  ⟨h.image, h.params, hok.valued_after h.valued, hc.agrees hok h.agrees, hc.housed hok h.housed⟩

/-- After a block the frame stands where it stood, with more assigned. -/
theorem block_reaches {E : Nat → Shape → Prop} {body : List Stmt} {o e : Point} {a : Nat}
    (h : Site image M fs m o Γ) (hvis : o.visible = p.visible)
    (hok : StmtsOk fs m.returnType ([] :: Γ) body)
    (hc : StmtsCode M m image.strings m.returnType o body e)
    (hbody : Reaches image m (exitAt e.pos (endShape (anyReturns body) e
      (afterAll ([] :: Γ) body))) a (between o ([] :: Γ)))
    (hend : anyReturns body = false →
      Reaches image m E e.pos (between p (afterAll ([] :: Γ) body).tail)) :
    Reaches image m E a (between p Γ) := by
  have hsame : between p Γ = between o Γ := by rw [between, between, hvis]
  rw [hsame]
  refine Reaches.trans hbody ?_
  rintro k X ⟨rfl, hX⟩
  unfold endShape at hX
  split at hX
  · cases hX
  · next hret =>
    obtain rfl := Option.some.inj hX
    have hin := hc.agrees hok h.block.agrees
    obtain ⟨b', Δ, heq, hle⟩ := afterAll_cons [] Γ body
    rw [heq] at hin hend ⊢
    obtain ⟨pre, hpre⟩ := hc.visible
    have hout : (between e (b' :: Δ)).Le (between p Δ) := by
      refine ⟨rfl, fun k hk => assignedSlots_outer hin (h.agrees.le hle) hpre ?_⟩
      rw [hvis]
      exact hk
    exact (hend (by simpa using hret)).weaken hout

theorem store_reaches {y : Binding} {a : Nat} {A : Nat → Prop} {S : Shape}
    (hy : SlotOk m p.slots y) (h : m.code[a]? = some y.slot.store) (hs : S.stack = [])
    (hA : ∀ k, S.assigned k → y.slot = .local k ∨ A k) :
    Reaches image m (exitAt (a + 1) (some S)) a ⟨[y.ty], A⟩ := by
  obtain ⟨stack, assigned⟩ := S
  obtain rfl : stack = [] := hs
  unfold SlotOk at hy
  cases hslot : y.slot with
  | arg k =>
    rw [hslot] at hy h hA
    have hle : Shape.Le ⟨[], A⟩ ⟨[], assigned⟩ :=
      ⟨rfl, fun k hk => (hA k hk).resolve_left fun h => nomatch h⟩
    exact .next h (.storeArg [] A hy) ((Reaches.exit rfl).weaken hle)
  | «local» k =>
    rw [hslot] at hy h hA
    obtain ⟨_, x, hx⟩ := hy
    have hle : Shape.Le ⟨[], fun j => j = k ∨ A j⟩ ⟨[], assigned⟩ := by
      refine ⟨rfl, fun j hj => (hA j hj).imp_left fun h => ?_⟩
      cases h
      rfl
    exact .next h (.storeLocal [] A hx) ((Reaches.exit rfl).weaken hle)

variable {b : Block} {q : Point}

theorem declare_reaches {x : String} {ty : Ty} {init : Option Expr} {span : Span}
    (h : Site image M fs m p (b :: Γ)) (hok : StmtOk fs m.returnType (b :: Γ) (.decl span x ty init))
    (hc : StmtCode M m image.strings m.returnType p (.decl span x ty init) q) :
    Reaches image m (exitAt q.pos (some (between q (after (b :: Γ) (.decl span x ty init))))) p.pos
      (between p (b :: Γ)) := by
  obtain ⟨hty, hfresh, hinit⟩ := hok
  have hnone : b.lookup x = none := by simpa [Ctx.isFresh] using hfresh
  rw [after, Ctx.declare, hnone]
  cases init with
  | none =>
    obtain ⟨_, rfl⟩ := hc
    have hle : (between p (b :: Γ)).Le (between ⟨p.pos, (x, ⟨.local p.slots, ty⟩) :: p.visible,
        p.slots + 1⟩ (((x, ⟨ty, false⟩) :: b) :: Γ)) := by
      refine ⟨rfl, ?_⟩
      rintro k ⟨w, hw, ha, hs⟩
      rcases List.mem_cons.mp hw with rfl | hw
      · cases ha
      · exact ⟨w, hw, ha, hs⟩
    exact (Reaches.exit rfl).weaken hle
  | some e =>
    obtain ⟨heok, hassign⟩ := hinit e rfl
    obtain ⟨k, he, hl, hcode, rfl⟩ := hc
    refine (as_reaches h heok (fits_of_assignableTo hty hassign) he []).seq ?_
    have hslot : SlotOk m (p.slots + 1) ⟨.local p.slots, ty⟩ := ⟨Nat.lt_succ_self _, x, hl⟩
    refine store_reaches (p := ⟨0, [], p.slots + 1⟩) hslot hcode rfl ?_
    rintro j ⟨w, hw, ha, hs⟩
    rcases List.mem_cons.mp hw with rfl | hw
    · exact .inl hs
    · exact .inr ⟨w, hw, ha, hs⟩

theorem assign_reaches {x : String} {value : Expr} {span target : Span}
    (h : Site image M fs m p (b :: Γ))
    (hok : StmtOk fs m.returnType (b :: Γ) (.assign span x target value))
    (hc : StmtCode M m image.strings m.returnType p (.assign span x target value) q) :
    Reaches image m (exitAt q.pos (some (between q (Ctx.assign x (b :: Γ))))) p.pos
      (between p (b :: Γ)) := by
  obtain ⟨hvok, v, hv, hassign⟩ := hok
  obtain ⟨y, k, hy, hval, hcode, rfl⟩ := hc
  obtain ⟨v', hv', hty, _⟩ := h.agrees.find? hy
  rw [hv] at hv'
  obtain rfl := Option.some.inj hv'
  have hvalue := h.valued.find? hv
  rw [← hty] at hassign hvalue
  refine (as_reaches h hvok (fits_of_assignableTo hvalue hassign) hval []).seq ?_
  exact store_reaches (h.housed.lookup hy) hcode rfl fun j hj =>
    assignedSlots_assign h.agrees hy hj

theorem assignElement_reaches {x : String} {is : List Expr} {value : Expr} {span target : Span}
    (h : Site image M fs m p (b :: Γ))
    (hok : StmtOk fs m.returnType (b :: Γ) (.assignElement span x is target value))
    (hc : StmtCode M m image.strings m.returnType p (.assignElement span x is target value) q) :
    Reaches image m (exitAt q.pos (some (between q (b :: Γ)))) p.pos (between p (b :: Γ)) := by
  obtain ⟨hvok, hisok, hint, element, hread, hassign⟩ := hok
  obtain ⟨y, element', k, k', hy, hyt, hload, hargs, hval, hcode, rfl⟩ := hc
  obtain ⟨hty, hslot, hA⟩ := h.read hread hy
  have hel : element' = element := by
    rw [hyt] at hty
    exact (Ty.array.inj hty).1
  subst hel
  have hfirst := load_reaches image (σ := []) hslot hA hload
  have hargs := args_reaches h hisok hargs (index_fits hint) [y.ty]
  have hval := as_reaches h hvok (fits_of_assignableTo (isValue_toTy element') hassign) hval
    ((List.replicate is.length .integer).reverse ++ [y.ty])
  refine ((hfirst.seq hargs).seq hval).seq ?_
  rw [List.reverse_replicate, hty]
  split at hcode
  · next hone =>
    rw [hone]
    exact .next hcode (.takes [] _ (.storeElem element')) (.exit rfl)
  · have ht := Goes.takes [] (assignedSlots p.visible (b :: Γ))
      (m := m) (Takes.arraySet (p := image) element' is.length)
    rw [List.append_nil] at ht
    exact .next hcode ht (.exit rfl)

theorem ret_reaches {value : Option Expr} {span : Span} (h : Site image M fs m p (b :: Γ))
    (hok : StmtOk fs m.returnType (b :: Γ) (.ret span value))
    (hc : StmtCode M m image.strings m.returnType p (.ret span value) q) :
    Reaches image m (exitAt q.pos none) p.pos (between p (b :: Γ)) := by
  have hret : ∀ {a : Nat} {A : Nat → Prop}, m.code[a]? = some .ret →
      Reaches image m (exitAt q.pos none) a ⟨resultTys m.returnType, A⟩ := fun hi =>
    .step hi (.ret _) (fun _ h => nomatch h) fun _ _ h => nomatch h
  cases value with
  | none =>
    obtain ⟨hi, rfl⟩ := hc
    have hv : m.returnType = .void := hok
    have hr := hret (A := assignedSlots p.visible (b :: Γ)) hi
    rw [hv] at hr
    exact hr
  | some e =>
    obtain ⟨heok, hro⟩ := hok
    unfold StmtCode at hc
    split at hc
    · next hval =>
      obtain ⟨k, he, hi, rfl⟩ := hc
      have hr := hret (A := assignedSlots p.visible (b :: Γ)) hi
      rw [resultTys, if_pos hval] at hr
      exact (as_reaches h heok (fits_of_returnOk hval hro) he []).seq hr
    · next hval =>
      obtain ⟨leaves, k, k', he, hd, hi, rfl⟩ := hc
      have hr := hret (A := assignedSlots p.visible (b :: Γ)) hi
      rw [resultTys, if_neg hval] at hr
      have hleaves := he.leaves_eq h.image.declared h.valued heok
      exact ((expr_reaches h heok he []).seq (discard_reaches hleaves hd)).seq hr

theorem branch_reaches {E : Nat → Shape → Prop} {a yes pos : Nat} {A : Nat → Prop}
    (hi : m.code[a]? = some (.branchIfTrue yes)) (hpos : m.position? yes = some pos)
    (hno : Reaches image m E (a + 1) ⟨[], A⟩) (hyes : Reaches image m E pos ⟨[], A⟩) :
    Reaches image m E a ⟨[.boolean], A⟩ := by
  refine .step hi (.branchIfTrue [] A hpos (.inr rfl)) (fun S' hS' => ?_) fun k S' hS' => ?_
  · cases hS'
    exact hno
  · cases hS'
    exact hyes

theorem jump_reaches {E : Nat → Shape → Prop} {a l pos : Nat} {S : Shape}
    (hi : m.code[a]? = some (.jump l)) (hpos : m.position? l = some pos)
    (h : Reaches image m E pos S) : Reaches image m E a S := by
  refine .step hi (.jump S hpos) (fun _ h => nomatch h) fun k S' hS' => ?_
  cases hS'
  exact h

theorem label_reaches {E : Nat → Shape → Prop} {a l : Nat} {A : Nat → Prop}
    (hi : m.code[a]? = some (.label l)) (h : Reaches image m E (a + 1) ⟨[], A⟩) :
    Reaches image m E a ⟨[], A⟩ := .next hi (.takes [] A (.label l)) h

theorem loop_reaches {E : Nat → Shape → Prop} {a l : Nat} {A : Nat → Prop}
    (hi : m.code[a]? = some (.label l))
    (h : Reaches image m (fun k X => (k = a ∧ X = ⟨[], A⟩) ∨ E k X) (a + 1) ⟨[], A⟩) :
    Reaches image m E a ⟨[], A⟩ := by
  refine .of (.inl (Safe.loop (.step ⟨_, _, _, hi, .takes [] A (.label l), fun S' hS' => ?_,
    fun _ _ h => nomatch h⟩)))
  cases hS'
  exact h

mutual

/-- The code of a statement leads to its end, unless every path through it returns. -/
theorem stmt_reaches {b : Block} {Γ : Ctx} {p q : Point} (h : Site image M fs m p (b :: Γ)) :
    ∀ {s : Stmt}, StmtOk fs m.returnType (b :: Γ) s →
      StmtCode M m image.strings m.returnType p s q →
      Reaches image m (exitAt q.pos (endShape s.returns q (after (b :: Γ) s))) p.pos
        (between p (b :: Γ))
  | .expr _ e, hok, hc => by
    obtain ⟨leaves, k, k', he, hd, rfl⟩ := hc
    have hleaves := he.leaves_eq h.image.declared h.valued hok
    exact (expr_reaches h hok he []).seq (discard_reaches hleaves hd)
  | .decl _ x ty init, hok, hc => declare_reaches h hok hc
  | .assign _ x _ value, hok, hc => assign_reaches h hok hc
  | .assignElement _ x is _ value, hok, hc => assignElement_reaches h hok hc
  | .ret _ value, hok, hc => ret_reaches h hok hc
  | .ifThen _ cond body, hok, hc => by
    obtain ⟨yes, stop, k, e, hcond, hbranch, hjump, hyes, hbody, hstop, rfl⟩ := hc
    have hend : Reaches image m (exitAt (e.pos + 1) (some (between p (b :: Γ)))) e.pos
        (between p (b :: Γ)) := label_reaches hstop.1 (.exit rfl)
    have hin := h.at (q := { p with pos := k + 3 }) rfl (Nat.le_refl _)
    refine (condition_reaches h hok.1 hcond).seq (branch_reaches hbranch hyes.2 ?_ ?_)
    · exact jump_reaches hjump hstop.2 hend
    · refine label_reaches hyes.1 (block_reaches hin rfl hok.2 hbody ?_ fun _ => ?_)
      · exact stmts_reaches hin.block hok.2 hbody
      · exact hend.weaken (between_le (le_tail_afterAll _ body))
  | .ifElse _ cond body other, hok, hc => by
    obtain ⟨yes, stop, k, e, e', hcond, hbranch, hother, hjump, hyes, hbody, hstop, rfl⟩ := hc
    obtain ⟨_, hleb, hleo⟩ := Ctx.le_both (le_tail_afterAll (b :: Γ) body)
      (le_tail_afterAll (b :: Γ) other)
    have hin := h.at (q := { p with pos := k + 1 }) rfl (Nat.le_refl _)
    have hin' := h.at (q := ⟨e.pos + 2, p.visible, e.slots⟩) rfl (hother.newSlots hok.2.2).1
    have hend : (anyReturns body && anyReturns other) = false →
        Reaches image m (exitAt (e'.pos + 1) (endShape (anyReturns body && anyReturns other)
          ⟨e'.pos + 1, p.visible, e'.slots⟩ (after (b :: Γ) (.ifElse default cond body other))))
          e'.pos (between p (after (b :: Γ) (.ifElse default cond body other))) := fun hret =>
      label_reaches hstop.1 (.exit (by rw [endShape, hret]; rfl))
    refine (condition_reaches h hok.1 hcond).seq (branch_reaches hbranch hyes.2 ?_ ?_)
    · refine block_reaches hin rfl hok.2.2 hother (stmts_reaches hin.block hok.2.2 hother) fun hret => ?_
      refine jump_reaches hjump hstop.2 ((hend ?_).weaken (between_le hleo))
      rw [hret, Bool.and_false]
    · refine label_reaches hyes.1 (block_reaches hin' rfl hok.2.1 hbody
        (stmts_reaches hin'.block hok.2.1 hbody) fun hret => ?_)
      refine (hend ?_).weaken (between_le hleb)
      rw [hret, Bool.false_and]
  | .while _ cond body, hok, hc => by
    obtain ⟨test, yes, stop, k, e, htest, hcond, hbranch, hjump, hyes, hbody, hback, hstop, rfl⟩ :=
      hc
    have hin := h.at (q := { p with pos := k + 3 }) rfl (Nat.le_refl _)
    refine loop_reaches htest.1 ?_
    refine (condition_reaches h hok.1 hcond).trans ?_
    rintro _ _ ⟨rfl, hX⟩
    cases hX
    refine branch_reaches hbranch hyes.2 ?_ ?_
    · exact jump_reaches hjump hstop.2 (label_reaches hstop.1 (.of (.inr (.inr ⟨rfl, rfl⟩))))
    · refine label_reaches hyes.1 (block_reaches hin rfl hok.2 hbody
        (stmts_reaches hin.block hok.2 hbody) fun _ => ?_)
      refine jump_reaches hback htest.2 ?_
      exact Reaches.weaken (between_le (le_tail_afterAll _ body)) (.of (.inr (.inl ⟨rfl, rfl⟩)))
  | .doWhile _ body cond, hok, hc => by
    obtain ⟨again, test, stop, e, k, hagain, hbody, htest, hcond, hbranch, hstop, rfl⟩ := hc
    have hle := le_tail_afterAll (b :: Γ) body
    have hin := h.at (q := { p with pos := p.pos + 1 }) rfl (Nat.le_refl _)
    refine loop_reaches hagain.1 (block_reaches hin rfl hok.1 hbody
      (stmts_reaches hin.block hok.1 hbody) fun hret => ?_)
    refine label_reaches htest ((condition_reaches (h.le hle) hok.2 hcond).trans ?_)
    rintro _ _ ⟨rfl, hX⟩
    cases hX
    refine branch_reaches hbranch hagain.2 ?_ ?_
    · refine label_reaches hstop (.of (.inr (.inr ⟨rfl, ?_⟩)))
      rw [endShape, Stmt.returns, hret]
      rfl
    · exact Reaches.weaken (between_le hle) (.of (.inr (.inl ⟨rfl, rfl⟩)))
  | .block _ body, hok, hc => by
    obtain ⟨e, hbody, rfl⟩ := hc
    refine block_reaches h rfl hok hbody (stmts_reaches h.block hok hbody) fun hret => .exit ?_
    rw [endShape, Stmt.returns, hret]
    rfl

theorem stmts_reaches {b : Block} {Γ : Ctx} {p q : Point} (h : Site image M fs m p (b :: Γ)) :
    ∀ {ss : List Stmt}, StmtsOk fs m.returnType (b :: Γ) ss →
      StmtsCode M m image.strings m.returnType p ss q →
      Reaches image m (exitAt q.pos (endShape (anyReturns ss) q (afterAll (b :: Γ) ss))) p.pos
        (between p (b :: Γ))
  | [], _, hc => by
    rw [show q = p from hc]
    exact .exit rfl
  | s :: ss, hok, hc => by
    obtain ⟨e, hs, hss⟩ := hc
    refine (stmt_reaches h hok.1 hs).trans ?_
    rintro _ X ⟨rfl, hX⟩
    rw [endShape] at hX
    cases hret : s.returns with
    | true =>
      rw [hret] at hX
      cases hX
    | false =>
      rw [hret] at hX
      obtain rfl := Option.some.inj hX
      obtain ⟨b', Γ', heq, _⟩ := after_cons b Γ s
      have hsite := h.after hok.1 hs
      have hoks := hok.2
      rw [anyReturns, hret, Bool.false_or, afterAll]
      rw [heq] at hsite hoks ⊢
      exact stmts_reaches hsite hoks hss

end

end

/-! ### Methods -/

/-- The parameters of a function are its variables at the start of its body. -/
theorem bindParams_forall₂ (ps : List Param) :
    ∀ {visible : Visible} {b : Block} (slot : Nat),
      List.Forall₂ (fun x y => x.1 = y.1 ∧ x.2.ty = y.2.ty) visible b →
      List.Forall₂ (fun x y => x.1 = y.1 ∧ x.2.ty = y.2.ty) (bindParams visible slot ps)
        (paramBlock ps ++ b) := by
  induction ps with
  | nil => exact fun _ h => h
  | cons x ps ih =>
    intro visible b slot h
    have hcons := ih (slot + 1) (List.Forall₂.cons (a := (x.name, (⟨.arg slot, x.ty⟩ : Binding)))
      (b := (x.name, (⟨x.ty, true⟩ : Var))) ⟨rfl, rfl⟩ h)
    have hblock : paramBlock (x :: ps) ++ b = paramBlock ps ++ (x.name, ⟨x.ty, true⟩) :: b := by
      simp [paramBlock]
    rw [hblock]
    exact hcons

theorem agrees_bindParams (ps : List Param) : Agrees (bindParams [] 0 ps) [paramBlock ps] := by
  rw [Agrees, List.flatten_singleton, ← List.append_nil (paramBlock ps)]
  exact bindParams_forall₂ ps 0 .nil

theorem valued_paramBlock {ps : List Param} (h : ∀ x ∈ ps, x.ty.isValue = true) :
    Ctx.Valued [paramBlock ps] := by
  intro b hb x hx
  obtain rfl := List.mem_singleton.mp hb
  obtain ⟨y, hy, rfl⟩ := List.mem_map.mp (List.mem_reverse.mp hx)
  exact h y hy

theorem mem_bindParams {ps : List Param} {x : String × Binding} :
    ∀ {visible : Visible} {slot : Nat}, x ∈ bindParams visible slot ps →
      x ∈ visible ∨ ∃ k y, ps[k]? = some y ∧ x = (y.name, ⟨.arg (slot + k), y.ty⟩) := by
  induction ps with
  | nil => exact fun h => .inl h
  | cons y ps ih =>
    intro visible slot h
    rcases ih h with hmem | ⟨k, z, hz, rfl⟩
    · rcases List.mem_cons.mp hmem with rfl | hmem
      · exact .inr ⟨0, y, rfl, rfl⟩
      · exact .inl hmem
    · exact .inr ⟨k + 1, z, hz, by rw [Nat.add_assoc, Nat.add_comm 1 k]⟩

/-- What a method with code promises: its code is safe from the start, and every variable of it
has a type with values. -/
structure MethodVerified (image : Image) (m : Method) : Prop where
  code : Reaches image m (fun _ _ => False) 0 ⟨[], fun _ => False⟩
  params : ∀ t ∈ m.params, t.isValue = true
  locals : ∀ l ∈ m.locals, l.ty.isValue = true

section

variable {image : Image} {M : Methods} {fs : List FunctionDecl} {m : Method} {f : FunctionDecl}

theorem bodySite (h : ImageOf image M fs) (hok : ProgramOk fs) (hf : f ∈ fs)
    (hm : MethodOf image.hostRoutines m f) :
    Site image M fs m ⟨0, bindParams [] 0 f.params, 0⟩ [paramBlock f.params] := by
  have hparams : ∀ f ∈ fs, ∀ x ∈ f.params, x.ty.isValue = true := fun f hf =>
    (hok.functions f hf).1
  refine ⟨h, hparams, valued_paramBlock (hparams f hf), agrees_bindParams f.params, ?_⟩
  intro x hx
  obtain ⟨k, y, hy, rfl⟩ := (mem_bindParams hx).resolve_left List.not_mem_nil
  show m.params[0 + k]? = some y.ty
  rw [Nat.zero_add, hm.params, List.getElem?_map, hy]
  rfl

/-- The code of a function is safe, and its local variables have types with values. -/
theorem FunctionCode.verified (h : ImageOf image M fs) (hok : ProgramOk fs) (hf : f ∈ fs)
    (hm : MethodOf image.hostRoutines m f) (hbody : BodyOk fs f)
    (hc : FunctionCode M image.strings m f) : MethodVerified image m := by
  obtain ⟨e, hstmts, hnop, hret, hsize⟩ := hc
  obtain ⟨hstmtsok, hreturns⟩ := hbody
  have hsite := bodySite h hok hf hm
  rw [← hm.returnType] at hstmts hstmtsok hreturns
  refine ⟨?_, ?_, ?_⟩
  · have hstart : Shape.Le ⟨[], fun _ => False⟩
        (between ⟨0, bindParams [] 0 f.params, 0⟩ [paramBlock f.params]) := by
      refine ⟨rfl, fun k hk => ?_⟩
      obtain ⟨x, hx, _, hslot⟩ := hk
      obtain ⟨j, y, _, hxy⟩ := (mem_bindParams (List.of_mem_zip hx).1).resolve_left
        List.not_mem_nil
      rw [hxy] at hslot
      cases hslot
    refine Reaches.weaken hstart ((stmts_reaches hsite hstmtsok hstmts).trans ?_)
    rintro k X ⟨rfl, hX⟩
    unfold endShape at hX
    split at hX
    · cases hX
    · next hopen =>
      obtain rfl := Option.some.inj hX
      have hvoid : m.returnType = .void := hreturns.resolve_right hopen
      have hlast : ∀ A, Reaches image m (fun _ _ => False) (e.pos + 1) ⟨[], A⟩ := by
        intro A
        have hgoes := Goes.ret (p := image) (m := m) A
        rw [hvoid] at hgoes
        exact .step hret hgoes (fun _ h => nomatch h) fun _ _ h => nomatch h
      exact .next hnop (.takes [] _ .nop) (hlast _)
  · rw [hm.params]
    intro t ht
    obtain ⟨x, hx, rfl⟩ := List.mem_map.mp ht
    exact hsite.params f hf x hx
  · intro l hl
    obtain ⟨k, hk, hkl⟩ := Array.mem_iff_getElem.mp hl
    obtain ⟨l', hl', hv⟩ := (hstmts.newSlots hstmtsok).2 k (Nat.zero_le k) (by omega)
    rw [Array.getElem?_eq_getElem hk, hkl] at hl'
    exact Option.some.inj hl' ▸ hv

/-- A method that is not the host's is that of a function with a body. -/
theorem MethodOf.external {hs : Array HostRoutine} (h : MethodOf hs m f) (hhost : m.host = none) :
    f.external = none := by
  cases hx : f.external with
  | none => rfl
  | some package =>
    obtain ⟨k, hk, _⟩ := h.host package hx
    rw [hhost] at hk
    cases hk

/-- Every method with code of the image of a well-typed program is verified. -/
theorem ImageOf.verified (h : ImageOf image M fs) (hok : ProgramOk fs) {id : Nat}
    (hid : image.methods[id]? = some m) (hhost : m.host = none) : MethodVerified image m := by
  rw [← Array.getElem?_toList] at hid
  obtain ⟨f, hf, hm, hc⟩ := Forall₂.getElem? h.methods.flip hid
  have hext : f.isExternal = false := by
    rw [FunctionDecl.isExternal, hm.external hhost]
    rfl
  have hmem := List.mem_of_getElem? hf
  exact (hc hext).verified h hok hmem hm ((hok.functions f hmem).2 hext)

theorem ImageOf.entry_spec (h : ImageOf image M fs) {id : Nat} (hid : image.entry = some id) :
    ∃ m, image.methods[id]? = some m ∧ m.host = none ∧ m.params = [] := by
  rw [h.entry, entryOf] at hid
  split at hid
  · next k hk =>
    obtain ⟨hlt, hsig, _⟩ := Array.findIdx?_eq_some_iff_getElem.mp hk
    have hget : image.methods[k]? = some image.methods[k] := Array.getElem?_eq_getElem hlt
    rw [hget] at hid
    split at hid
    · next hnone =>
      cases hid
      refine ⟨_, hget, by simpa using hnone, ?_⟩
      have harity := (of_decide_eq_true hsig).2
      exact List.length_eq_zero_iff.mp harity
    · cases hid
  · cases hid

/-- The method to start with is that of the function `main` without parameters. -/
theorem ImageOf.entry_function (h : ImageOf image M fs) {id : Nat} (hid : image.entry = some id) :
    ∃ f, fs[id]? = some f ∧ findFunction? fs "main" 0 = some f := by
  have hfind : findFunction? fs "main" 0 = _ := List.find?_eq_bind_findIdx?_getElem?
  rw [← findIdx?_methods (h.methods.imp fun _ _ hm => hm.1)] at hfind
  rw [h.entry, entryOf] at hid
  split at hid
  · next k hk =>
    rw [hk, Option.bind_some] at hfind
    split at hid
    · cases hid
      obtain ⟨hlt, _⟩ := Array.findIdx?_eq_some_iff_getElem.mp hk
      have hlen := h.methods.length_eq
      rw [Array.length_toList] at hlen
      have hf : fs[id]? = some fs[id] := List.getElem?_eq_getElem (by omega)
      exact ⟨fs[id], hf, hfind.trans hf⟩
    · cases hid
  · cases hid

end

end Quill.Lowering
