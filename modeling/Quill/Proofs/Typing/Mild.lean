import Quill.Proofs.Tree.Frames
import Quill.Proofs.Typing.Appends

/-! # Expressions without a type

An expression without a type has type `Undefined`, and whatever is checked around it takes that as
it is: nothing more is reported, and the type of what is around it is the type that it had, or
`Undefined` in turn (`Mild`).  So if a part of an expression that is checked without a report is
replaced by one whose own check fails, the reports of that check are all that there are
(`infer_plugParts_local`). -/

namespace Quill.Typing

open Report (Log Finding)
open Scope (Table)

theorem clean_iff {log : Log} : Clean log ↔ log = .empty := Log.size_eq_zero_iff log

/-! ### Operations -/

/-- The second type is the first, or it is not known. -/
def Mild (t t' : Ty) : Prop := t' = .undefined ∨ t' = t

theorem Mild.assignableTo {t t' target : Ty} (h : Mild t t')
    (ht : target = .undefined ∨ t.assignableTo target = true) :
    target = .undefined ∨ t'.assignableTo target = true := by
  rcases h with rfl | rfl
  · exact .inr rfl
  · exact ht

/-- Checking the second expression instead of the first, which is checked without a report, adds the
reports `D` and gives the type it had or none. -/
structure ExprAdds (s : Sight) (D : Log) (x y : Expr) : Prop where
  log : (infer s .empty y).2 = D
  mild : Mild (infer s .empty x).1.ty (infer s .empty y).1.ty

section

variable {s : Sight} {D : Log} {span : Span} {x y : Expr}

/-- An operation is checked without a report if it was, also where the type of an operand is not
known any more. -/
theorem Sight.combine_mild {op : String} {result? : Ty → Ty → Option Ty} {unknown l l' r r' : Ty}
    (hunknown : unknown = .undefined ∨ ∀ l r t, result? l r = some t → t = unknown)
    (hc : (s.combine .empty span op l r (result? l r) unknown).2 = .empty) (hl : Mild l l')
    (hr : Mild r r') :
    (s.combine .empty span op l' r' (result? l' r') unknown).2 = .empty ∧
      Mild (s.combine .empty span op l r (result? l r) unknown).1
        (s.combine .empty span op l' r' (result? l' r') unknown).1 := by
  by_cases hu : l' = .undefined ∨ r' = .undefined
  · have hnew : s.combine .empty span op l' r' (result? l' r') unknown = (unknown, .empty) :=
      if_pos hu
    rw [hnew]
    refine ⟨rfl, hunknown.imp id fun hres => ?_⟩
    have hcomb := (Sight.combine_clean (clean_iff.mpr hc)).2
    generalize (s.combine .empty span op l r (result? l r) unknown).1 = t at hcomb ⊢
    unfold Combined at hcomb
    split at hcomb
    · exact hcomb.symm
    · exact (hres l r t hcomb).symm
  · rw [not_or] at hu
    obtain rfl : l' = l := hl.resolve_left hu.1
    obtain rfl : r' = r := hr.resolve_left hu.2
    exact ⟨hc, .inr rfl⟩

/-- The type of an operation on two operands, and the log after it. -/
def operation (s : Sight) (span : Span) (op : String) (result? : Ty → Ty → Option Ty)
    (unknown : Ty) (l r : Expr) : Ty × Log :=
  let (l, log) := infer s .empty l
  let (r, log) := infer s log r
  s.combine log span op l.ty r.ty (result? l.ty r.ty) unknown

section

variable {op : String} (result? : Ty → Ty → Option Ty) {unknown : Ty} {l l' r r' : Expr}

theorem operation_eq : operation s span op result? unknown l r =
    ((s.combine .empty span op (infer s .empty l).1.ty (infer s .empty r).1.ty
        (result? (infer s .empty l).1.ty (infer s .empty r).1.ty) unknown).1,
      (infer s .empty l).2 ++ ((infer s .empty r).2 ++
        (s.combine .empty span op (infer s .empty l).1.ty (infer s .empty r).1.ty
          (result? (infer s .empty l).1.ty (infer s .empty r).1.ty) unknown).2)) := by
  unfold operation
  dsimp only
  rw [infer_eq s _ r, ← Log.append_assoc, ← Sight.combine_append, Log.append_empty]

theorem operation_local
    (hunknown : unknown = .undefined ∨ ∀ l r t, result? l r = some t → t = unknown)
    (hc : (operation s span op result? unknown l r).2 = .empty) :
    ((infer s .empty l).2 = .empty ∧ ∀ {D l'}, ExprAdds s D l l' →
      (operation s span op result? unknown l' r).2 = D ∧
        Mild (operation s span op result? unknown l r).1
          (operation s span op result? unknown l' r).1) ∧
    ((infer s .empty r).2 = .empty ∧ ∀ {D r'}, ExprAdds s D r r' →
      (operation s span op result? unknown l r').2 = D ∧
        Mild (operation s span op result? unknown l r).1
          (operation s span op result? unknown l r').1) := by
  rw [operation_eq] at hc
  obtain ⟨hl, hrest⟩ := Log.append_eq_empty_iff.mp hc
  obtain ⟨hr, ht⟩ := Log.append_eq_empty_iff.mp hrest
  refine ⟨⟨hl, fun h => ?_⟩, ⟨hr, fun h => ?_⟩⟩
  · obtain ⟨hlog, hmild⟩ := Sight.combine_mild hunknown ht h.mild (.inr rfl)
    rw [operation_eq, operation_eq]
    refine ⟨?_, hmild⟩
    rw [h.log, hr, hlog, Log.append_empty, Log.append_empty]
  · obtain ⟨hlog, hmild⟩ := Sight.combine_mild hunknown ht (.inr rfl) h.mild
    rw [operation_eq, operation_eq]
    refine ⟨?_, hmild⟩
    rw [h.log, hl, hlog, Log.append_empty, Log.empty_append]

end

/-! ### Lists of expressions -/

/-- The log after an annotated expression of a list, which may have to be an integer. -/
def expectOne (s : Sight) (integers : Option String) (log : Log) (e : Expr) : Log :=
  match integers with
  | some what => s.expectInteger log what e
  | none => log

theorem expectOne_append (integers : Option String) (log log' : Log) (e : Expr) :
    expectOne s integers (log ++ log') e = log ++ expectOne s integers log' e := by
  cases integers with
  | none => rfl
  | some what => exact s.expectInteger_append log log' what e

theorem expectOne_mild {integers : Option String} (hc : expectOne s integers .empty x = .empty)
    (h : Mild x.ty y.ty) : expectOne s integers D y = D := by
  cases integers with
  | none => rfl
  | some what =>
    have hx := (Sight.expectInteger_clean (clean_iff.mpr hc)).2
    have hy : y.ty = .integer ∨ y.ty = .undefined := by
      rcases h with h | h
      · exact .inr h
      · rw [h]
        exact hx
    exact if_pos hy

theorem inferAll_split (integers : Option String) (before after : List Expr) (x : Expr) :
    inferAll s integers .empty [] (before ++ x :: after) =
      ((inferAll s integers .empty [] before).1 ++ (infer s .empty x).1 ::
          (inferAll s integers .empty [] after).1,
        (inferAll s integers .empty [] before).2 ++
          (expectOne s integers (infer s .empty x).2 (infer s .empty x).1 ++
            (inferAll s integers .empty [] after).2)) := by
  have hcons : ∀ e es, inferAll s integers .empty [] (e :: es) =
      ((infer s .empty e).1 :: (inferAll s integers .empty [] es).1,
        expectOne s integers (infer s .empty e).2 (infer s .empty e).1 ++
          (inferAll s integers .empty [] es).2) := by
    intro e es
    rw [inferAll_cons]
    dsimp only
    rw [inferAll_eq]
    rfl
  induction before with
  | nil =>
    rw [List.nil_append, hcons]
    exact congrArg (Prod.mk _) (Log.empty_append _).symm
  | cons e before ih => rw [List.cons_append, hcons, ih, hcons, List.cons_append, Log.append_assoc]

theorem inferAll_local {integers : Option String} {before after : List Expr}
    (hc : (inferAll s integers .empty [] (before ++ x :: after)).2 = .empty) :
    (infer s .empty x).2 = .empty ∧ ∀ {D y}, ExprAdds s D x y →
      (inferAll s integers .empty [] (before ++ y :: after)).2 = D ∧
        List.Forall₂ (fun e e' => Mild e.ty e'.ty)
          (inferAll s integers .empty [] (before ++ x :: after)).1
          (inferAll s integers .empty [] (before ++ y :: after)).1 := by
  rw [inferAll_split] at hc
  obtain ⟨hbefore, hrest⟩ := Log.append_eq_empty_iff.mp hc
  obtain ⟨hone, hafter⟩ := Log.append_eq_empty_iff.mp hrest
  rw [← Log.append_empty (infer s .empty x).2, expectOne_append] at hone
  obtain ⟨hx, hone⟩ := Log.append_eq_empty_iff.mp hone
  refine ⟨hx, fun h => ?_⟩
  rw [inferAll_split, inferAll_split, hbefore, hafter, h.log, expectOne_mild hone h.mild]
  refine ⟨by rw [Log.append_empty, Log.empty_append], ?_⟩
  have hrefl : ∀ es : List Expr, List.Forall₂ (fun e e' : Expr => Mild e.ty e'.ty) es es :=
    fun es => List.forall₂_same.mpr fun _ _ => .inr rfl
  exact List.rel_append (hrefl _) (.cons h.mild (hrefl _))

theorem Sight.arguments_one {name : String} {isBuiltin : Bool} {i : Nat}
    {param : Scope.Argument} (hc : s.arguments name isBuiltin .empty i [x] [param] = .empty)
    (h : Mild x.ty y.ty) : s.arguments name isBuiltin .empty i [y] [param] = .empty := by
  have hx := List.forall₂_cons.mp (Sight.arguments_clean rfl (clean_iff.mpr hc)).2
  obtain ⟨hassign, haccepts⟩ := hx.1
  simp only [arguments]
  rcases h with h | h
  · rw [h]
    simp [Ty.assignableTo, Ty.isValue]
  · rw [h, hassign]
    by_cases hb : isBuiltin = true ∧ x.ty.isValue = true
    · simp [haccepts hb.1 hb.2]
    · rw [not_and, Bool.not_eq_true] at hb
      cases hbuiltin : isBuiltin with
      | false => simp
      | true => simp [hb hbuiltin]

theorem Sight.arguments_mild {name : String} {isBuiltin : Bool} {args args' : List Expr}
    (h : List.Forall₂ (fun e e' => Mild e.ty e'.ty) args args') :
    ∀ {i : Nat} {params : List Scope.Argument},
      s.arguments name isBuiltin .empty i args params = .empty →
        s.arguments name isBuiltin .empty i args' params = .empty := by
  induction h with
  | nil => exact fun hc => hc
  | @cons arg arg' args args' harg _ ih =>
    intro i params hc
    cases params with
    | nil => rfl
    | cons param params =>
      have hcons : ∀ e es, s.arguments name isBuiltin .empty i (e :: es) (param :: params) =
          s.arguments name isBuiltin .empty i [e] [param] ++
            s.arguments name isBuiltin .empty (i + 1) es params := by
        intro e es
        rw [← arguments_append, Log.append_empty]
        rfl
      rw [hcons] at hc ⊢
      obtain ⟨hone, hrest⟩ := Log.append_eq_empty_iff.mp hc
      rw [arguments_one hone harg, ih hrest, Log.empty_append]

theorem Sight.call_mild {name : String} {args args' : List Expr}
    (hc : (s.call .empty span name args).2 = .empty)
    (h : List.Forall₂ (fun e e' => Mild e.ty e'.ty) args args') :
    s.call .empty span name args' = s.call .empty span name args := by
  unfold call at hc ⊢
  rw [← h.length_eq]
  split
  · next f hf =>
    rw [hf] at hc
    exact congrArg (Prod.mk f.returnType) ((arguments_mild h hc).trans hc.symm)
  · rfl

/-! ### Frames of expressions -/

theorem comparison_result?_eq {op : Comparison} (l r t : Ty) (h : op.result? l r = some t) :
    t = .boolean := by
  unfold Comparison.result? at h
  split at h
  · exact (Option.some.inj h).symm
  · split at h
    · exact (Option.some.inj h).symm
    · cases h

theorem logicOp_result?_eq (l r t : Ty) (h : LogicOp.result? l r = some t) : t = .boolean := by
  unfold LogicOp.result? at h
  split at h
  · exact (Option.some.inj h).symm
  · cases h

theorem Sight.negate_mild {t t' : Ty} (hc : (s.negate .empty span t).2 = .empty) (h : Mild t t') :
    s.negate .empty span t' = s.negate .empty span t := by
  have ht : t = .boolean ∨ t = .undefined := (Sight.negate_clean (clean_iff.mpr hc)).2.1
  have ht' : t' = .boolean ∨ t' = .undefined := by
    rcases h with h | h
    · exact .inr h
    · rw [h]
      exact ht
  rw [negate, negate, if_pos ht, if_pos ht']

/-- The type and the reports of a negation, told from those of its operand. -/
theorem infer_not_eq (n : Note) (e : Expr) :
    (infer s .empty (.not n e)).1.ty = (s.negate .empty n.span (infer s .empty e).1.ty).1 ∧
      (infer s .empty (.not n e)).2 =
        (infer s .empty e).2 ++ (s.negate .empty n.span (infer s .empty e).1.ty).2 := by
  have h := s.negate_append (infer s .empty e).2 .empty n.span (infer s .empty e).1.ty
  rw [Log.append_empty] at h
  have hty := congrArg Prod.fst h
  have hlog := congrArg Prod.snd h
  exact ⟨hty, hlog⟩

/-- The type and the reports of an expression with a list of parts: those of the parts stand behind
`first`, and `last` is what the annotated parts are asked for in the end. -/
def Lists (s : Sight) (node : List Expr → Expr) (integers : Option String) (first : Log)
    (last : List Expr → Ty × Log) : Prop :=
  ∀ es, (infer s .empty (node es)).1.ty = (last (inferAll s integers .empty [] es).1).1 ∧
    (infer s .empty (node es)).2 = first ++ ((inferAll s integers .empty [] es).2 ++
      (last (inferAll s integers .empty [] es).1).2)

theorem lists_index (s : Sight) (n : Note) (a : String) :
    Lists s (.index n a) (some "index") (s.read .empty a n.span).2
      (fun es => s.element .empty n.span a (s.read .empty a n.span).1 es.length) := by
  intro es
  have h := s.element_append (inferAll s (some "index") (s.read .empty a n.span).2 [] es).2 .empty
    n.span a (s.read .empty a n.span).1
    (inferAll s (some "index") (s.read .empty a n.span).2 [] es).1.length
  rw [Log.append_empty] at h
  have hty := congrArg Prod.fst h
  have hlog := congrArg Prod.snd h
  have hall := inferAll_eq s (some "index") (s.read .empty a n.span).2 es
  have hes := congrArg Prod.fst hall
  have hes' := congrArg Prod.snd hall
  dsimp only at hty hlog hes hes'
  rw [← Log.append_assoc, ← hes', ← hes]
  exact ⟨hty, hlog⟩

theorem lists_call (s : Sight) (n : Note) (f : String) :
    Lists s (.call n f) none .empty (s.call .empty n.span f) := by
  intro es
  have h := s.call_append (inferAll s none .empty [] es).2 .empty n.span f
    (inferAll s none .empty [] es).1
  rw [Log.append_empty] at h
  have hty := congrArg Prod.fst h
  have hlog := congrArg Prod.snd h
  rw [Log.empty_append]
  exact ⟨hty, hlog⟩

theorem lists_newArray (s : Sight) (n : Note) (element : Element) :
    Lists s (.newArray n element) (some "array dimensions") .empty
      (fun es => s.array .empty n.span element es.length) := by
  intro es
  have h := s.array_append (inferAll s (some "array dimensions") .empty [] es).2 .empty n.span
    element (inferAll s (some "array dimensions") .empty [] es).1.length
  rw [Log.append_empty] at h
  have hty := congrArg Prod.fst h
  have hlog := congrArg Prod.snd h
  rw [Log.empty_append]
  exact ⟨hty, hlog⟩

theorem Lists.local {node : List Expr → Expr} {integers : Option String} {first : Log}
    {last : List Expr → Ty × Log} (h : Lists s node integers first last)
    (hlast : ∀ {es es'}, (last es).2 = .empty →
      List.Forall₂ (fun e e' => Mild e.ty e'.ty) es es' → last es' = last es)
    {before after : List Expr} (hc : (infer s .empty (node (before ++ x :: after))).2 = .empty) :
    (infer s .empty x).2 = .empty ∧ ∀ {D y}, ExprAdds s D x y →
      ExprAdds s D (node (before ++ x :: after)) (node (before ++ y :: after)) := by
  obtain ⟨hty, hlog⟩ := h (before ++ x :: after)
  rw [hlog] at hc
  obtain ⟨hfirst, hrest⟩ := Log.append_eq_empty_iff.mp hc
  obtain ⟨hall, hl⟩ := Log.append_eq_empty_iff.mp hrest
  obtain ⟨hx, hadds⟩ := inferAll_local hall
  refine ⟨hx, fun {D y} hxy => ?_⟩
  obtain ⟨hD, hmild⟩ := hadds hxy
  obtain ⟨hty', hlog'⟩ := h (before ++ y :: after)
  rw [hlast hl hmild] at hty' hlog'
  constructor
  · rw [hlog', hfirst, hD, hl, Log.append_empty, Log.empty_append]
  · exact .inr (hty'.trans hty.symm)

/-- One layer of an expression: nothing is reported for it because of its part. -/
theorem infer_plug_local (F : ExprFrame) (hc : (infer s .empty (F.plug x)).2 = .empty) :
    (infer s .empty x).2 = .empty ∧
      ∀ {D y}, ExprAdds s D x y → ExprAdds s D (F.plug x) (F.plug y) := by
  cases F with
  | arithLeft n op r =>
    obtain ⟨⟨hx, hadds⟩, _⟩ := operation_local op.result? (.inl rfl) hc
    exact ⟨hx, fun h => ⟨(hadds h).1, (hadds h).2⟩⟩
  | arithRight n op l =>
    obtain ⟨_, hx, hadds⟩ := operation_local op.result? (.inl rfl) hc
    exact ⟨hx, fun h => ⟨(hadds h).1, (hadds h).2⟩⟩
  | compareLeft n op r =>
    obtain ⟨⟨hx, hadds⟩, _⟩ := operation_local op.result? (.inr comparison_result?_eq) hc
    exact ⟨hx, fun h => ⟨(hadds h).1, (hadds h).2⟩⟩
  | compareRight n op l =>
    obtain ⟨_, hx, hadds⟩ := operation_local op.result? (.inr comparison_result?_eq) hc
    exact ⟨hx, fun h => ⟨(hadds h).1, (hadds h).2⟩⟩
  | logicLeft n op r =>
    obtain ⟨⟨hx, hadds⟩, _⟩ := operation_local LogicOp.result? (.inr logicOp_result?_eq) hc
    exact ⟨hx, fun h => ⟨(hadds h).1, (hadds h).2⟩⟩
  | logicRight n op l =>
    obtain ⟨_, hx, hadds⟩ := operation_local LogicOp.result? (.inr logicOp_result?_eq) hc
    exact ⟨hx, fun h => ⟨(hadds h).1, (hadds h).2⟩⟩
  | not n =>
    obtain ⟨hty, hlog⟩ := infer_not_eq (s := s) n x
    rw [ExprFrame.plug, hlog] at hc
    obtain ⟨hx, ht⟩ := Log.append_eq_empty_iff.mp hc
    refine ⟨hx, fun {D y} h => ?_⟩
    obtain ⟨hty', hlog'⟩ := infer_not_eq (s := s) n y
    rw [Sight.negate_mild ht h.mild] at hty' hlog'
    constructor
    · rw [ExprFrame.plug, hlog', ht, h.log, Log.append_empty]
    · exact .inr (hty'.trans hty.symm)
  | index n a before after =>
    refine (lists_index s n a).local (fun _ hmild => ?_) hc
    rw [hmild.length_eq]
  | call n f before after => exact (lists_call s n f).local Sight.call_mild hc
  | newArray n e before after =>
    refine (lists_newArray s n e).local (fun _ hmild => ?_) hc
    rw [hmild.length_eq]

theorem infer_plugParts_local :
    ∀ {parts : List ExprFrame}, (infer s .empty (plugParts x parts)).2 = .empty →
      (infer s .empty x).2 = .empty ∧
        ∀ {D y}, ExprAdds s D x y → ExprAdds s D (plugParts x parts) (plugParts y parts) := by
  intro parts
  induction parts with
  | nil => exact fun hc => ⟨hc, fun h => h⟩
  | cons F parts ih =>
    intro hc
    obtain ⟨hrest, hF⟩ := infer_plug_local F hc
    obtain ⟨hx, hparts⟩ := ih hrest
    exact ⟨hx, fun h => hF (hparts h)⟩

end

end Quill.Typing
