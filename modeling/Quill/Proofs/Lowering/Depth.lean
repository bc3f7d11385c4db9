import Quill.Proofs.Code.Depth
import Quill.Proofs.Lowering.Calls
import Quill.Proofs.Lowering.Choices
import Quill.Proofs.Lowering.Extent

/-! # Depths in lowered code

The code of an expression is a segment at every depth: it leaves one operand more if it leaves a
value, and else as many as there were (`expr_segment`).  The code of a statement is a segment
without operands at its ends (`stmt_segment`), and so is that of every statement inside it
(`Lies.depth`).  The tree does not have to be checked; it is enough that its code could be laid
out. -/

namespace Quill.Lowering

open Code

section

variable {image : Image} {m : Method} {R : Nat → Prop} {a b δ : Nat}

/-! ### Pieces of code -/

theorem load_segment (slot : Slot) (hi : m.code[a]? = some slot.load)
    (hδ : depthAt image m a = δ) : Segment image m R a δ (a + 1) (δ + 1) := by
  cases slot with
  | arg k => exact .instr (n := 0) hi rfl rfl rfl hδ
  | «local» k => exact .instr (n := 0) hi rfl rfl rfl hδ

theorem store_segment (slot : Slot) (hi : m.code[a]? = some slot.store)
    (hδ : depthAt image m a = δ + 1) : Segment image m R a (δ + 1) (a + 1) δ := by
  cases slot with
  | arg k => exact .instr (k := 0) hi rfl rfl rfl hδ
  | «local» k => exact .instr (k := 0) hi rfl rfl rfl hδ

theorem widened_segment {t target : Ty} (h : Widened m t target a b)
    (hδ : depthAt image m a = δ + 1) : Segment image m R a (δ + 1) b (δ + 1) := by
  unfold Widened at h
  split at h
  · obtain ⟨hi, rfl⟩ := h
    exact .instr hi rfl rfl rfl hδ
  · subst h
    exact .nil hδ

theorem discard_segment {leaves : Bool} (h : DiscardCode m leaves a b)
    (hδ : depthAt image m a = δ + valueCount leaves) :
    Segment image m R a (δ + valueCount leaves) b δ := by
  cases leaves with
  | true =>
    obtain ⟨hi, rfl⟩ := h
    exact .instr (k := 0) hi rfl rfl rfl hδ
  | false =>
    obtain rfl : b = a := h
    exact .nil hδ

/-- The two branches of a truth value push one operand each and meet behind them. -/
theorem truth_segment {branch : Nat → Instr} {taken : Int64} {n : Nat}
    (hf : ∀ l, (branch l).falls = true) (ht : ∀ l, (branch l).target? = some l)
    (he : ∀ l, (branch l).effect image = ⟨n, 0⟩) (h : TruthCode m branch taken a b)
    (hδ : depthAt image m a = δ + n) : Segment image m R a (δ + n) b (δ + 1) := by
  obtain ⟨yes, no, stop, hcode, hyes, hstop, rfl⟩ := h
  have hone : depthAt image m (a + 1) = δ := by
    have hi : m.code[a]? = some (branch yes) := hcode 0 _ rfl
    rw [depthAt_falls hi (hf yes), he, hδ]
    exact Nat.add_sub_cancel δ n
  have hlabel : Segment image m R (a + 1) δ (a + 2) δ := .label (hcode 1 _ rfl) hone
  have hno : Segment image m R (a + 1) δ (a + 3) (δ + 1) :=
    hlabel.trans (.instr (n := 0) (hcode 2 _ rfl) rfl rfl rfl hlabel.exit)
  have hfour : depthAt image m (a + 4) = δ := by
    rw [depthAt_stops (hcode 3 _ rfl) rfl, hno.exit]
    rfl
  have hlabel : Segment image m R (a + 4) δ (a + 5) δ := .label (hcode 4 _ rfl) hfour
  have hyes' : Segment image m R (a + 4) δ (a + 6) (δ + 1) :=
    hlabel.trans (.instr (n := 0) (hcode 5 _ rfl) rfl rfl rfl hlabel.exit)
  have hbranch : Segment image m R a (δ + n) (a + 1) δ := by
    refine .falling (k := 0) (hcode 0 _ rfl) (hf yes) (he yes) hδ fun label pc hl hpc => ?_
    rw [ht] at hl
    cases hl
    rw [hyes] at hpc
    cases hpc
    exact hfour
  have hjump : Segment image m R (a + 3) (δ + 1) (a + 4) δ :=
    .jump (hcode 3 _ rfl) hstop hno.exit hyes'.exit
  exact ((hbranch.trans hno).trans hjump).trans
    (hyes'.trans (.label (hcode 6 _ rfl) hyes'.exit))

/-! ### Calls -/

/-- The code of a call behind its arguments: no more than one instruction, which takes the arguments
and leaves the result. -/
theorem callPlan_effect {M : Methods} {fs : List FunctionDecl} (him : ImageOf image M fs)
    {name : String} {args targets : List Ty} {code : List Instr} {leaves : Bool}
    (h : callPlan M name args = .ok (targets, .ok code, leaves)) :
    targets.length = args.length ∧ ((code = [] ∧ args.length = valueCount leaves) ∨
      ∃ i, code = [i] ∧ i.falls = true ∧ i.target? = none ∧
        i.effect image = ⟨args.length, valueCount leaves⟩) := by
  rcases callPlan_cases him.declared h with ⟨f, hf⟩ | ⟨-, htemplate, rfl, rfl⟩
  · have harity : f.params.length = args.length := by
      have hfound := List.find?_some hf.found
      exact (of_decide_eq_true hfound).2
    refine ⟨by rw [hf.targets, List.length_map, harity], .inr ?_⟩
    rcases hf.code with ⟨id, hid, -, rfl⟩ | ⟨package, k, -, rfl, hk⟩
    · obtain ⟨c, hc, hcf, -⟩ := Forall₂.getElem? him.methods hid
      rw [Array.getElem?_toList] at hc
      refine ⟨_, rfl, rfl, rfl, ?_⟩
      rw [Instr.effect, hc, hf.leaves, ← hcf.returnType]
      rfl
    · refine ⟨_, rfl, rfl, rfl, ?_⟩
      rw [Instr.effect, hk, hf.leaves, ← harity]
      show Effect.mk (f.params.map (·.ty)).length _ = _
      rw [List.length_map]
  · refine ⟨rfl, ?_⟩
    rcases template_cases htemplate with hnil | ⟨op, rfl, heffect⟩
    · exact .inl hnil
    · exact .inr ⟨_, rfl, rfl, rfl, heffect⟩

theorem call_segment {M : Methods} {fs : List FunctionDecl} (him : ImageOf image M fs)
    {name : String} {args targets : List Ty} {code : List Instr} {leaves : Bool}
    (h : callPlan M name args = .ok (targets, .ok code, leaves)) (hcode : CodeAt m a code)
    (hδ : depthAt image m a = δ + args.length) :
    Segment image m R a (δ + args.length) (a + code.length) (δ + valueCount leaves) := by
  obtain ⟨-, ⟨rfl, hlen⟩ | ⟨i, rfl, hf, ht, he⟩⟩ := callPlan_effect him h
  · rw [← hlen]
    exact .nil hδ
  · exact .instr (hcode 0 i rfl) hf ht he hδ

end

/-! ### Expressions -/

section

variable {image : Image} {M : Methods} {fs : List FunctionDecl} {m : Method} {visible : Visible}
  {R : Nat → Prop}

/-- The code of an operand is that of its value and the conversion. -/
theorem operand_segment {value : Nat → Nat → Prop} {t target : Ty} {a b δ : Nat}
    (h : OperandCode m value t target a b)
    (hvalue : ∀ k, value a k → Segment image m R a δ k (δ + 1)) :
    Segment image m R a δ b (δ + 1) := by
  obtain ⟨k, hk, hw⟩ := h
  have hfirst := hvalue k hk
  exact hfirst.trans (widened_segment hw hfirst.exit)

mutual

/-- The code of an expression leaves its value, if it has one, above what was there. -/
theorem expr_segment (him : ImageOf image M fs) :
    ∀ {e : Expr} {leaves : Bool} {a b : Nat}, ExprCode M m image.strings visible e leaves a b →
      ∀ δ, depthAt image m a = δ → Segment image m R a δ b (δ + valueCount leaves)
  | .literal n v, leaves, a, b, hc, δ, hδ => by
    obtain ⟨rfl, rfl, i, hi, hcode⟩ := hc
    cases v with
    | integer | float | boolean =>
      cases hi
      exact .instr (n := 0) hcode rfl rfl rfl hδ
    | string s =>
      obtain ⟨id, rfl, -⟩ := hi
      exact .instr (n := 0) hcode rfl rfl rfl hδ
  | .name n x, leaves, a, b, hc, δ, hδ => by
    obtain ⟨rfl, rfl, y, -, hcode⟩ := hc
    exact load_segment y.slot hcode hδ
  | .arith n op l r, leaves, a, b, hc, δ, hδ => by
    obtain ⟨rfl, i, k, k', hi, hl, hr, hcode, rfl⟩ := hc
    have hleft := operand_segment (R := R) hl fun k h => expr_segment him h δ hδ
    have hright := operand_segment (R := R) hr fun k h => expr_segment him h (δ + 1) hleft.exit
    refine (hleft.trans hright).trans ?_
    rcases arithInstr_cases hi with rfl | ⟨num, rfl⟩
    · exact .instr (n := 2) (k := 1) hcode rfl rfl rfl hright.exit
    · exact .instr (n := 2) (k := 1) hcode rfl rfl rfl hright.exit
  | .compare n op l r, leaves, a, b, hc, δ, hδ => by
    obtain ⟨rfl, ty, between, num, k, k', hp, hl, hr, hbetween, htruth⟩ := hc
    have hleft := operand_segment (R := R) hl fun k h => expr_segment him h δ hδ
    have hright := operand_segment (R := R) hr fun k h => expr_segment him h (δ + 1) hleft.exit
    have hmiddle : Segment image m R k' (δ + 2) (k' + between.length) (δ + 2) := by
      rcases comparisonPlan_between hp with rfl | rfl
      · exact .nil hright.exit
      · have heq : Segment image m R k' (δ + 2) (k' + 1) (δ + 1) :=
          .instr (n := 2) (k := 1) (hbetween 0 _ rfl) rfl rfl rfl hright.exit
        exact heq.trans (.instr (n := 0) (hbetween 1 _ rfl) rfl rfl rfl heq.exit)
    refine ((hleft.trans hright).trans hmiddle).trans ?_
    exact truth_segment (fun _ => rfl) (fun _ => rfl) (fun _ => rfl) htruth hmiddle.exit
  | .logic n op l r, leaves, a, b, hc, δ, hδ => by
    obtain ⟨rfl, k, k', hl, hr, hcode, htruth⟩ := hc
    have hleft := operand_segment (R := R) hl fun k h => expr_segment him h δ hδ
    have hright := operand_segment (R := R) hr fun k h => expr_segment him h (δ + 1) hleft.exit
    have hlogic : Segment image m R k' (δ + 2) (k' + 1) (δ + 1) := by
      cases op with
      | and => exact .instr (n := 2) (k := 1) hcode rfl rfl rfl hright.exit
      | or => exact .instr (n := 2) (k := 1) hcode rfl rfl rfl hright.exit
    refine ((hleft.trans hright).trans hlogic).trans ?_
    exact truth_segment (fun _ => rfl) (fun _ => rfl) (fun _ => rfl) htruth hlogic.exit
  | .not n x, leaves, a, b, hc, δ, hδ => by
    obtain ⟨rfl, k, hx, htruth⟩ := hc
    have hoperand := operand_segment (R := R) hx fun k h => expr_segment him h δ hδ
    refine hoperand.trans ?_
    exact truth_segment (fun _ => rfl) (fun _ => rfl) (fun _ => rfl) htruth hoperand.exit
  | .index n x is, leaves, a, b, hc, δ, hδ => by
    obtain ⟨rfl, y, i, k, -, hload, hargs, hi, hcode, rfl⟩ := hc
    have hfirst := load_segment (R := R) y.slot hload hδ
    have hrest := args_segment him hargs List.length_replicate (δ + 1) hfirst.exit
    refine (hfirst.trans hrest).trans ?_
    have hdepth : δ + 1 + is.length = δ + (is.length + 1) := by omega
    rw [hdepth] at hrest ⊢
    rcases elementInstr_cases hi with ⟨hone, rfl | rfl⟩ | rfl
    · rw [hone] at hrest ⊢
      exact .instr (n := 2) (k := 1) hcode rfl rfl rfl hrest.exit
    · rw [hone] at hrest ⊢
      exact .instr (n := 2) (k := 1) hcode rfl rfl rfl hrest.exit
    · exact .instr (k := 1) hcode rfl rfl rfl hrest.exit
  | .call n f args, leaves, a, b, hc, δ, hδ => by
    obtain ⟨targets, code, k, hplan, hargs, hcode, rfl⟩ := hc
    have hlen : targets.length = args.length := by
      rw [(callPlan_effect him hplan).1, List.length_map]
    have hfirst := args_segment him hargs hlen δ hδ
    rw [← List.length_map (f := Expr.ty)] at hfirst
    exact hfirst.trans (call_segment him hplan hcode hfirst.exit)
  | .newArray n e dims, leaves, a, b, hc, δ, hδ => by
    obtain ⟨rfl, k, hargs, -, hcode, rfl⟩ := hc
    have hfirst := args_segment him hargs List.length_replicate δ hδ
    exact hfirst.trans (.instr (k := 1) hcode rfl rfl rfl hfirst.exit)

theorem args_segment (him : ImageOf image M fs) :
    ∀ {args : List Expr} {targets : List Ty} {a b : Nat},
      ArgsCode M m image.strings visible targets args a b → targets.length = args.length →
      ∀ δ, depthAt image m a = δ → Segment image m R a δ b (δ + args.length)
  | [], targets, a, b, hc, _, δ, hδ => by
    obtain rfl : b = a := by simpa [ArgsCode] using hc
    exact .nil hδ
  | e :: es, t :: ts, a, b, hc, hlen, δ, hδ => by
    obtain ⟨k, he, hes⟩ := hc
    have hhead := operand_segment (R := R) he fun k h => expr_segment him h δ hδ
    have hrest := args_segment him hes (Nat.succ.inj hlen) (δ + 1) hhead.exit
    rw [List.length_cons, Nat.add_comm es.length 1, ← Nat.add_assoc]
    exact hhead.trans hrest

end

theorem as_segment (him : ImageOf image M fs) {e : Expr} {target : Ty} {a b δ : Nat}
    (hc : AsCode M m image.strings visible e target a b) (hδ : depthAt image m a = δ) :
    Segment image m R a δ b (δ + 1) :=
  operand_segment hc fun _ h => expr_segment him h δ hδ

end

/-! ### Returns -/

section

variable (M : Methods) (m : Method) (strings : Array String) (returnType : Ty) (R : Nat → Prop)

/-- The return statements inside a statement return at positions with `R`. -/
def ReturnsAt (p : Point) (s : Stmt) : Prop :=
  ∀ route a span value b pc, Lies M m strings returnType route p s a (.ret span value) b →
    b.pos = pc + 1 → R pc

/-- The same for a list of statements. -/
def ReturnsAtAll (p : Point) (ss : List Stmt) : Prop :=
  ∀ k o s, StmtsCode M m strings returnType p (ss.take k) o → ss[k]? = some s →
    ReturnsAt M m strings returnType R o s

end

section

variable {image : Image} {M : Methods} {fs : List FunctionDecl} {m : Method}
  {strings : Array String} {returnType : Ty} {R : Nat → Prop} {p q : Point}

theorem ReturnsAt.body {s : Stmt} (h : ReturnsAt M m strings returnType R p s) {j : Nat}
    {body : List Stmt} {c : Point} (hb : BodyCode M m strings returnType p s j body c) :
    ReturnsAtAll M m strings returnType R c body :=
  fun k o u ho hu route a span value b pc hl =>
    h ((j, k) :: route) a span value b pc ⟨body, c, o, u, hb, ho, hu, hl⟩

theorem ReturnsAtAll.head {s : Stmt} {rest : List Stmt}
    (h : ReturnsAtAll M m strings returnType R p (s :: rest)) :
    ReturnsAt M m strings returnType R p s := h 0 p s rfl rfl

theorem ReturnsAtAll.tail {s : Stmt} {rest : List Stmt}
    (h : ReturnsAtAll M m strings returnType R p (s :: rest))
    (hs : StmtCode M m strings returnType p s q) :
    ReturnsAtAll M m strings returnType R q rest :=
  fun k o u ho hu => h (k + 1) o u ⟨q, hs, ho⟩ hu

theorem returnsAt_true (p : Point) (s : Stmt) :
    ReturnsAt M m strings returnType (fun _ => True) p s := fun _ _ _ _ _ _ _ _ => trivial

/-- The code of a return statement ends in a return, at the depth of what is returned. -/
theorem ret_segment (him : ImageOf image M fs) {span : Span} {value : Option Expr}
    (hc : StmtCode M m image.strings returnType p (.ret span value) q)
    (hδ : depthAt image m p.pos = 0) :
    ∃ pc, q.pos = pc + 1 ∧ m.code[pc]? = some .ret ∧
      Segment image m R p.pos 0 pc (valueCount (value.isSome && returnType.isValue)) := by
  cases value with
  | none =>
    obtain ⟨hi, rfl⟩ := hc
    exact ⟨p.pos, rfl, hi, .nil hδ⟩
  | some e =>
    unfold StmtCode at hc
    rw [Option.isSome_some, Bool.true_and]
    split at hc
    · next hv =>
      obtain ⟨k, he, hi, rfl⟩ := hc
      rw [hv]
      exact ⟨k, rfl, hi, as_segment him he hδ⟩
    · next hv =>
      obtain ⟨leaves, k, b, he, hd, hi, rfl⟩ := hc
      rw [Bool.eq_false_iff.mpr hv]
      have hvalue := expr_segment (R := R) him he 0 hδ
      exact ⟨b, rfl, hi, hvalue.trans (discard_segment hd hvalue.exit)⟩

/-! ### Statements -/

section

variable {a δ l : Nat}

theorem depth_label (hi : m.code[a]? = some (.label l)) (hδ : depthAt image m a = δ) :
    depthAt image m (a + 1) = δ := by
  rw [depthAt_falls hi rfl, hδ]
  rfl

theorem depth_jump (hi : m.code[a]? = some (.jump l)) (hδ : depthAt image m a = 0) :
    depthAt image m (a + 1) = 0 := by
  rw [depthAt_stops hi rfl, hδ]

variable {cond : Expr} {visible : Visible} {k : Nat}

theorem condition_depth (him : ImageOf image M fs)
    (hc : AsCode M m image.strings visible cond .boolean a k)
    (hi : m.code[k]? = some (.branchIfTrue l)) (hδ : depthAt image m a = 0) :
    depthAt image m (k + 1) = 0 := by
  rw [depthAt_falls hi rfl, (as_segment (R := fun _ => True) him hc hδ).exit]
  rfl

theorem condition_segment (him : ImageOf image M fs)
    (hc : AsCode M m image.strings visible cond .boolean a k)
    (hi : m.code[k]? = some (.branchIfTrue l)) (hδ : depthAt image m a = 0) {pc : Nat}
    (hpos : m.position? l = some pc) (hpc : depthAt image m pc = 0) :
    Segment image m R a 0 (k + 1) 0 := by
  have hcond := as_segment (R := R) him hc hδ
  exact hcond.trans (.branchIfTrue hi hpos hcond.exit hpc)

end

theorem valueCount_le (leaves : Bool) : valueCount leaves ≤ 1 := by
  cases leaves <;> decide

mutual

/-- The code of a statement starts and ends without operands. -/
theorem stmt_segment (him : ImageOf image M fs) :
    ∀ {s : Stmt} {p q : Point}, StmtCode M m image.strings returnType p s q →
      ReturnsAt M m image.strings returnType R p s → depthAt image m p.pos = 0 →
      Segment image m R p.pos 0 q.pos 0
  | .expr _ e, p, q, hc, _, hδ => by
    obtain ⟨leaves, k, b, he, hd, rfl⟩ := hc
    have hvalue := expr_segment (R := R) him he 0 hδ
    exact hvalue.trans (discard_segment hd hvalue.exit)
  | .decl _ x ty none, p, q, hc, _, hδ => by
    obtain ⟨-, rfl⟩ := hc
    exact .nil hδ
  | .decl _ x ty (some e), p, q, hc, _, hδ => by
    obtain ⟨k, he, -, hi, rfl⟩ := hc
    have hvalue := as_segment (R := R) him he hδ
    exact hvalue.trans (store_segment (.local p.slots) hi hvalue.exit)
  | .assign _ x _ value, p, q, hc, _, hδ => by
    obtain ⟨y, k, -, he, hi, rfl⟩ := hc
    have hvalue := as_segment (R := R) him he hδ
    exact hvalue.trans (store_segment y.slot hi hvalue.exit)
  | .assignElement _ x is _ value, p, q, hc, _, hδ => by
    obtain ⟨y, element, k, k', -, -, hload, hargs, he, hi, rfl⟩ := hc
    have hfirst := load_segment (R := R) y.slot hload hδ
    have hindices := args_segment (R := R) him hargs List.length_replicate 1 hfirst.exit
    have hvalue := as_segment (R := R) him he hindices.exit
    refine ((hfirst.trans hindices).trans hvalue).trans ?_
    have hdepth : 1 + is.length + 1 = 0 + (is.length + 2) := by omega
    rw [hdepth] at hvalue ⊢
    split at hi
    · next hone =>
      rw [hone] at hvalue ⊢
      exact .instr (n := 3) (k := 0) hi rfl rfl rfl hvalue.exit
    · exact .instr (k := 0) hi rfl rfl rfl hvalue.exit
  | .ifThen _ cond body, p, q, hc, hR, hδ => by
    obtain ⟨yes, stop, k, e, hcond, hbranch, hjump, hyes, hcode, hstop, rfl⟩ := hc
    -- branches go forward: the depths at their targets come first, then the pieces in order
    have hno := condition_depth him hcond hbranch hδ
    have hmark := depth_jump hjump hno
    have hbody := stmts_segment him hcode (hR.body (.ifThen hcond hbranch hjump hyes.1))
      (depth_label hyes.1 hmark)
    refine (condition_segment him hcond hbranch hδ hyes.2 hmark).trans ?_
    refine (Segment.jump hjump hstop.2 hno hbody.exit).trans ?_
    refine (Segment.label hyes.1 hmark).trans ?_
    exact hbody.trans (.label hstop.1 hbody.exit)
  | .ifElse _ cond body other, p, q, hc, hR, hδ => by
    obtain ⟨yes, stop, k, e, e', hcond, hbranch, hcode, hjump, hyes, hcode', hstop, rfl⟩ := hc
    have hno := condition_depth him hcond hbranch hδ
    have hother := stmts_segment him hcode (hR.body (.other hcond hbranch)) hno
    have hmark := depth_jump hjump hother.exit
    have hbody := stmts_segment him hcode'
      (hR.body (.ifElse hcond hbranch hcode hjump hyes.1)) (depth_label hyes.1 hmark)
    refine (condition_segment him hcond hbranch hδ hyes.2 hmark).trans ?_
    refine hother.trans ((Segment.jump hjump hstop.2 hother.exit hbody.exit).trans ?_)
    refine (Segment.label hyes.1 hmark).trans ?_
    exact hbody.trans (.label hstop.1 hbody.exit)
  | .while _ cond body, p, q, hc, hR, hδ => by
    obtain ⟨test, yes, stop, k, e, htest, hcond, hbranch, hjump, hyes, hcode, hback, hstop, rfl⟩ :=
      hc
    have hstart := depth_label htest.1 hδ
    have hno := condition_depth him hcond hbranch hstart
    have hmark := depth_jump hjump hno
    have hbody := stmts_segment him hcode
      (hR.body (.while htest.1 hcond hbranch hjump hyes.1)) (depth_label hyes.1 hmark)
    have hend := depth_jump hback hbody.exit
    refine (Segment.label htest.1 hδ).trans ?_
    refine (condition_segment him hcond hbranch hstart hyes.2 hmark).trans ?_
    refine (Segment.jump hjump hstop.2 hno hend).trans ?_
    refine (Segment.label hyes.1 hmark).trans (hbody.trans ?_)
    exact (Segment.jump hback htest.2 hbody.exit hδ).trans (.label hstop.1 hend)
  | .doWhile _ body cond, p, q, hc, hR, hδ => by
    obtain ⟨again, test, stop, e, k, hagain, hcode, htest, hcond, hbranch, hstop, rfl⟩ := hc
    have hbody := stmts_segment him hcode (hR.body (.doWhile hagain.1))
      (depth_label hagain.1 hδ)
    have hstart := depth_label htest hbody.exit
    refine (Segment.label hagain.1 hδ).trans (hbody.trans ?_)
    refine (Segment.label htest hbody.exit).trans ?_
    refine (condition_segment him hcond hbranch hstart hagain.2 hδ).trans ?_
    exact .label hstop (condition_depth him hcond hbranch hstart)
  | .ret _ value, p, q, hc, hR, hδ => by
    obtain ⟨pc, hpos, hi, hvalue⟩ := ret_segment (R := R) him hc hδ
    have hret := Segment.ret hi hvalue.exit (hR [] p _ value q pc ⟨rfl, rfl, hc⟩ hpos)
    rw [Nat.sub_eq_zero_of_le (valueCount_le _)] at hret
    rw [hpos]
    exact hvalue.trans hret
  | .block _ body, p, q, hc, hR, hδ => by
    obtain ⟨e, hcode, rfl⟩ := hc
    have hbody := stmts_segment him hcode (hR.body .block) hδ
    exact hbody

theorem stmts_segment (him : ImageOf image M fs) :
    ∀ {ss : List Stmt} {p q : Point}, StmtsCode M m image.strings returnType p ss q →
      ReturnsAtAll M m image.strings returnType R p ss → depthAt image m p.pos = 0 →
      Segment image m R p.pos 0 q.pos 0
  | [], p, q, hc, _, hδ => by
    obtain rfl : q = p := hc
    exact .nil hδ
  | s :: rest, p, q, hc, hR, hδ => by
    obtain ⟨e, hs, hrest⟩ := hc
    have hfirst := stmt_segment him hs hR.head hδ
    exact hfirst.trans (stmts_segment him hrest (hR.tail hs) hfirst.exit)

end

theorem stmt_depth (him : ImageOf image M fs) {s : Stmt}
    (hc : StmtCode M m image.strings returnType p s q) (hδ : depthAt image m p.pos = 0) :
    depthAt image m q.pos = 0 :=
  (stmt_segment him hc (returnsAt_true p s) hδ).exit

theorem stmts_depth (him : ImageOf image M fs) {ss : List Stmt}
    (hc : StmtsCode M m image.strings returnType p ss q) (hδ : depthAt image m p.pos = 0) :
    depthAt image m q.pos = 0 :=
  (stmts_segment him hc (fun _ o s _ _ => returnsAt_true o s) hδ).exit

theorem BodyCode.depth (him : ImageOf image M fs) {s : Stmt} {j : Nat} {body : List Stmt}
    {c : Point} (h : BodyCode M m image.strings returnType p s j body c)
    (hδ : depthAt image m p.pos = 0) : depthAt image m c.pos = 0 := by
  cases h with
  | ifThen hcond hbranch hjump hyes =>
    exact depth_label hyes (depth_jump hjump (condition_depth him hcond hbranch hδ))
  | other hcond hbranch => exact condition_depth him hcond hbranch hδ
  | ifElse hcond hbranch hother hjump hyes =>
    have hend := stmts_depth him hother (condition_depth him hcond hbranch hδ)
    exact depth_label hyes (depth_jump hjump hend)
  | «while» htest hcond hbranch hjump hyes =>
    have hno := condition_depth him hcond hbranch (depth_label htest hδ)
    exact depth_label hyes (depth_jump hjump hno)
  | doWhile hagain => exact depth_label hagain hδ
  | block => exact hδ

theorem Lies.depth (him : ImageOf image M fs) {route : Route} {a b : Point} {t : Stmt} :
    ∀ {s : Stmt} {p : Point}, Lies M m image.strings returnType route p s a t b →
      depthAt image m p.pos = 0 → depthAt image m a.pos = 0 := by
  induction route with
  | nil =>
    rintro s p ⟨rfl, -, -⟩ hδ
    exact hδ
  | cons step route ih =>
    rintro s p ⟨body, c, o, u, hbody, hbefore, -, h⟩ hδ
    exact ih h (stmts_depth him hbefore (hbody.depth him hδ))

end

end Quill.Lowering
