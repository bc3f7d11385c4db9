import Quill.Proofs.Lowering.Calls
import Quill.Proofs.Lowering.Choices
import Quill.Proofs.Lowering.Verified
import Quill.Proofs.Machine.Mirror

/-! # Code of the same tree in two images

The layout of code fixes the instructions of a tree but for the numbers of what they name.  So where
the code of a tree stands in methods of two images, from the same position on and over functions
that call each other alike, it ends at the same position, and the instructions on the way mirror
each other (`ExprCode.mirror`, `StmtCode.mirror`).  So the images of two programs in which every
call means the same function mirror each other (`lowerProgram_mirror`). -/

namespace Quill.Lowering

open Code Machine Typing

/-! ### Instructions that name nothing by number -/

theorem namesNumber_load (slot : Slot) : namesNumber slot.load = false := by
  cases slot <;> rfl

theorem namesNumber_store (slot : Slot) : namesNumber slot.store = false := by
  cases slot <;> rfl

theorem namesNumber_arithInstr {op : ArithOp} {t : Ty} {i : Instr} (h : arithInstr op t = .ok i) :
    namesNumber i = false := by
  rcases arithInstr_cases h with rfl | ⟨n, rfl⟩
  · rfl
  · rfl

theorem namesNumber_logicInstr (op : LogicOp) : namesNumber (logicInstr op) = false := by
  cases op <;> rfl

theorem namesNumber_elementInstr {t : Ty} {count : Nat} {i : Instr}
    (h : elementInstr t count = .ok i) : namesNumber i = false := by
  rcases elementInstr_cases h with ⟨-, rfl | rfl⟩ | rfl
  · rfl
  · rfl
  · rfl

theorem namesNumber_between {op : Comparison} {l r ty : Ty} {between : List Instr} {n : Numeric}
    (h : comparisonPlan op l r = .ok (ty, between, n)) : ∀ i ∈ between, namesNumber i = false := by
  rcases comparisonPlan_between h with rfl | rfl
  · simp
  · simp [namesNumber]

theorem namesNumber_template {name : String} {args : List Ty} {code : List Instr}
    (h : template? name args = some (.ok code)) : ∀ i ∈ code, namesNumber i = false := by
  rcases template_cases h with ⟨rfl, -⟩ | ⟨op, rfl, -⟩
  · simp
  · simp [namesNumber]

/-! ### Stretches of code -/

/-- The instructions of two methods mirror each other from one position up to another. -/
def CodeMirror (p p' : Image) (R : Nat → Nat → Prop) (m m' : Method) (a b : Nat) : Prop :=
  ∀ k, a ≤ k → k < b → ∃ i i', m.code[k]? = some i ∧ m'.code[k]? = some i' ∧
    InstrMirror p p' R m m' i i'

section

variable {p p' : Image} {R : Nat → Nat → Prop} {m m' : Method} {a b b' c : Nat}

theorem CodeMirror.nil (a : Nat) : CodeMirror p p' R m m' a a := fun _ hk hk' => by omega

theorem CodeMirror.append (h : CodeMirror p p' R m m' a b) (h' : CodeMirror p p' R m m' b c) :
    CodeMirror p p' R m m' a c := by
  intro k hk hk'
  by_cases hkb : k < b
  · exact h k hk hkb
  · exact h' k (by omega) hk'

theorem CodeMirror.one {i i' : Instr} (h : m.code[a]? = some i) (h' : m'.code[a]? = some i')
    (hi : InstrMirror p p' R m m' i i') : CodeMirror p p' R m m' a (a + 1) := by
  intro k hk hk'
  obtain rfl : k = a := by omega
  exact ⟨i, i', h, h', hi⟩

theorem CodeMirror.same (h : CodeMirror p p' R m m' a b) {i : Instr} (hi : m.code[b]? = some i)
    (hi' : m'.code[b]? = some i) (hn : namesNumber i = false) :
    CodeMirror p p' R m m' a (b + 1) := h.append (.one hi hi' (.same hn))

theorem CodeAt.mirror {is is' : List Instr} (h : CodeAt m a is) (h' : CodeAt m' a is')
    (hi : List.Forall₂ (InstrMirror p p' R m m') is is') :
    CodeMirror p p' R m m' a (a + is.length) := by
  intro k hk hk'
  obtain ⟨j, rfl⟩ := Nat.exists_eq_add_of_le hk
  have hj : j < is.length := by omega
  have hj' : j < is'.length := hi.length_eq ▸ hj
  exact ⟨is[j], is'[j], h j _ (List.getElem?_eq_getElem hj), h' j _ (List.getElem?_eq_getElem hj'),
    hi.get hj hj'⟩

theorem forall₂_same_of_namesNumber {is : List Instr} (h : ∀ i ∈ is, namesNumber i = false) :
    List.Forall₂ (InstrMirror p p' R m m') is is :=
  List.forall₂_same.mpr fun i hi => .same (h i hi)

theorem Widened.mirror {ty target : Ty} (h : Widened m ty target a b)
    (h' : Widened m' ty target a b') : b = b' ∧ CodeMirror p p' R m m' a b := by
  unfold Widened at h h'
  split at h
  · next hw =>
    rw [if_pos hw] at h'
    obtain ⟨hi, rfl⟩ := h
    obtain ⟨hi', rfl⟩ := h'
    exact ⟨rfl, .one hi hi' (.same rfl)⟩
  · next hw =>
    rw [if_neg hw] at h'
    subst h h'
    exact ⟨rfl, .nil _⟩

theorem OperandCode.mirror {value value' : Nat → Nat → Prop} {ty target : Ty}
    (h : OperandCode m value ty target a b) (h' : OperandCode m' value' ty target a b')
    (hv : ∀ {k k' : Nat}, value a k → value' a k' → k = k' ∧ CodeMirror p p' R m m' a k) :
    b = b' ∧ CodeMirror p p' R m m' a b := by
  obtain ⟨k, hk, hw⟩ := h
  obtain ⟨k', hk', hw'⟩ := h'
  obtain ⟨rfl, hvalue⟩ := hv hk hk'
  have hwidened : b = b' ∧ CodeMirror p p' R m m' k b := hw.mirror hw'
  obtain ⟨rfl, hwidened⟩ := hwidened
  exact ⟨rfl, hvalue.append hwidened⟩

theorem DiscardCode.mirror {leaves : Bool} (h : DiscardCode m leaves a b)
    (h' : DiscardCode m' leaves a b') : b = b' ∧ CodeMirror p p' R m m' a b := by
  cases leaves with
  | true =>
    obtain ⟨hi, rfl⟩ := h
    obtain ⟨hi', rfl⟩ := h'
    exact ⟨rfl, .one hi hi' (.same rfl)⟩
  | false =>
    obtain rfl : b = a := h
    obtain rfl : b' = b := h'
    exact ⟨rfl, .nil b'⟩

theorem LabelAt.mirror {l l' : Nat} (h : LabelAt m a l) (h' : LabelAt m' a l') :
    CodeMirror p p' R m m' a (a + 1) := .one h.1 h'.1 (.label l l')

theorem TruthCode.mirror {branch : Nat → Instr} {taken : Int64} (h : TruthCode m branch taken a b)
    (h' : TruthCode m' branch taken a b')
    (hbranch : ∀ {l l' pos : Nat}, m.position? l = some pos → m'.position? l' = some pos →
      InstrMirror p p' R m m' (branch l) (branch l')) :
    b = b' ∧ CodeMirror p p' R m m' a b := by
  obtain ⟨yes, no, stop, hcode, hyes, hstop, rfl⟩ := h
  obtain ⟨yes', no', stop', hcode', hyes', hstop', rfl⟩ := h'
  refine ⟨rfl, hcode.mirror hcode' ?_⟩
  exact .cons (hbranch hyes hyes') <| .cons (.label no no') <| .cons (.same rfl) <|
    .cons (.jump hstop hstop') <| .cons (.label yes yes') <| .cons (.same rfl) <|
    .cons (.label stop stop') .nil

theorem LiteralInstr.mirror {i i' : Instr} {v : Literal} (h : LiteralInstr p.strings i v)
    (h' : LiteralInstr p'.strings i' v) : InstrMirror p p' R m m' i i' := by
  cases v with
  | string s =>
    obtain ⟨id, rfl, hid⟩ := h
    obtain ⟨id', rfl, hid'⟩ := h'
    exact .pushStr hid hid'
  | integer v | float bits | boolean b =>
    obtain rfl : i = _ := h
    obtain rfl : i' = _ := h'
    exact .same rfl

end

/-! ### Calls -/

/-- The numbers of the same function with a body in two lists. -/
def SameFunction (fs fs' : List FunctionDecl) (id id' : Nat) : Prop :=
  ∃ f, fs[id]? = some f ∧ fs'[id']? = some f ∧ f.external = none

/-- Two images with declared methods of functions that are found alike. -/
structure Siblings (image image' : Image) (M M' : Methods) (fs fs' : List FunctionDecl) : Prop where
  declared : List.Forall₂ (MethodOf image.hostRoutines) M.toList fs
  declared' : List.Forall₂ (MethodOf image'.hostRoutines) M'.toList fs'
  found : ∀ name arity, findFunction? fs name arity = findFunction? fs' name arity

section

variable {image image' : Image} {M M' : Methods} {fs fs' : List FunctionDecl} {m m' : Method}

theorem Siblings.callPlan (hp : Siblings image image' M M' fs fs') {name : String}
    {args targets targets' : List Ty} {code code' : List Instr} {leaves leaves' : Bool}
    (h : callPlan M name args = .ok (targets, .ok code, leaves))
    (h' : Lowering.callPlan M' name args = .ok (targets', .ok code', leaves')) :
    targets = targets' ∧ leaves = leaves' ∧
      List.Forall₂ (InstrMirror image image' (SameFunction fs fs') m m') code code' := by
  have hfound := hp.found name args.length
  rcases callPlan_cases hp.declared h with ⟨f, hf⟩ | ⟨hnone, htemplate, rfl, rfl⟩
  · rw [hf.found] at hfound
    rcases callPlan_cases hp.declared' h' with ⟨f', hf'⟩ | ⟨hnone', _⟩
    · rw [hf'.found] at hfound
      obtain rfl := Option.some.inj hfound
      refine ⟨hf.targets.trans hf'.targets.symm, hf.leaves.trans hf'.leaves.symm, ?_⟩
      rcases hf.code with ⟨id, hid, hext, rfl⟩ | ⟨package, k, hext, rfl, hk⟩
      · rcases hf'.code with ⟨id', hid', -, rfl⟩ | ⟨package', k', hext', -⟩
        · exact .cons (.call ⟨f, hid, hid', hext⟩ args.length) .nil
        · rw [hext] at hext'
          cases hext'
      · rcases hf'.code with ⟨id', -, hext', -⟩ | ⟨package', k', hext', rfl, hk'⟩
        · rw [hext] at hext'
          cases hext'
        · rw [hext] at hext'
          obtain rfl := Option.some.inj hext'
          exact .cons (.callHost hk hk') .nil
    · rw [hnone'] at hfound
      cases hfound
  · rw [hnone] at hfound
    rcases callPlan_cases hp.declared' h' with ⟨f', hf'⟩ | ⟨-, htemplate', rfl, rfl⟩
    · rw [hf'.found] at hfound
      cases hfound
    · rw [htemplate] at htemplate'
      obtain rfl := Except.ok.inj (Option.some.inj htemplate')
      exact ⟨rfl, rfl, forall₂_same_of_namesNumber (namesNumber_template htemplate)⟩

/-! ### Expressions -/

mutual

theorem ExprCode.mirror (hp : Siblings image image' M M' fs fs') {visible : Visible} :
    ∀ (e : Expr) {leaves leaves' : Bool} {a b b' : Nat},
      ExprCode M m image.strings visible e leaves a b →
      ExprCode M' m' image'.strings visible e leaves' a b' →
        leaves = leaves' ∧ b = b' ∧ CodeMirror image image' (SameFunction fs fs') m m' a b
  | .literal _ v, _, _, _, _, _, ⟨hl, hb, i, hv, hi⟩, ⟨hl', hb', i', hv', hi'⟩ => by
    subst hb hb'
    exact ⟨hl.trans hl'.symm, rfl, .one hi hi' (hv.mirror hv')⟩
  | .name _ x, _, _, _, _, _, ⟨hl, hb, y, hy, hi⟩, ⟨hl', hb', y', hy', hi'⟩ => by
    subst hb hb'
    obtain rfl := Option.some.inj (hy.symm.trans hy')
    exact ⟨hl.trans hl'.symm, rfl, .one hi hi' (.same (namesNumber_load _))⟩
  | .arith n op l r, _, _, _, _, _, ⟨hl, i, k, k₁, hop, hleft, hright, hi, hb⟩,
      ⟨hl', i', k', k₁', hop', hleft', hright', hi', hb'⟩ => by
    obtain rfl := Except.ok.inj (hop.symm.trans hop')
    obtain ⟨rfl, hcode⟩ := hleft.mirror hleft' fun h h' => (ExprCode.mirror hp l h h').2
    obtain ⟨rfl, hcode'⟩ := hright.mirror hright' fun h h' => (ExprCode.mirror hp r h h').2
    subst hb hb'
    exact ⟨hl.trans hl'.symm, rfl,
      (hcode.append hcode').same hi hi' (namesNumber_arithInstr hop)⟩
  | .compare _ op l r, _, _, _, _, _, ⟨hl, ty, between, n, k, k₁, hplan, hleft, hright, his, ht⟩,
      ⟨hl', ty', between', n', k', k₁', hplan', hleft', hright', his', ht'⟩ => by
    obtain ⟨rfl, rfl, rfl⟩ : ty = ty' ∧ between = between' ∧ n = n' := by
      have heq := Except.ok.inj (hplan.symm.trans hplan')
      simpa using heq
    obtain ⟨rfl, hcode⟩ := hleft.mirror hleft' fun h h' => (ExprCode.mirror hp l h h').2
    obtain ⟨rfl, hcode'⟩ := hright.mirror hright' fun h h' => (ExprCode.mirror hp r h h').2
    obtain ⟨rfl, htruth⟩ := ht.mirror ht' fun h h' => .branchCmp op n h h'
    refine ⟨hl.trans hl'.symm, rfl, ((hcode.append hcode').append ?_).append htruth⟩
    exact his.mirror his' (forall₂_same_of_namesNumber (namesNumber_between hplan))
  | .logic _ op l r, _, _, _, _, _, ⟨hl, k, k₁, hleft, hright, hi, ht⟩,
      ⟨hl', k', k₁', hleft', hright', hi', ht'⟩ => by
    obtain ⟨rfl, hcode⟩ := hleft.mirror hleft' fun h h' => (ExprCode.mirror hp l h h').2
    obtain ⟨rfl, hcode'⟩ := hright.mirror hright' fun h h' => (ExprCode.mirror hp r h h').2
    obtain ⟨rfl, htruth⟩ := ht.mirror ht' fun h h' => .branchIfTrue h h'
    exact ⟨hl.trans hl'.symm, rfl,
      ((hcode.append hcode').same hi hi' (namesNumber_logicInstr op)).append htruth⟩
  | .not _ x, _, _, _, _, _, ⟨hl, k, hx, ht⟩, ⟨hl', k', hx', ht'⟩ => by
    obtain ⟨rfl, hcode⟩ := hx.mirror hx' fun h h' => (ExprCode.mirror hp x h h').2
    obtain ⟨rfl, htruth⟩ := ht.mirror ht' fun h h' => .branchIfTrue h h'
    exact ⟨hl.trans hl'.symm, rfl, hcode.append htruth⟩
  | .index _ x is, _, _, _, _, _, ⟨hl, y, i, k, hy, hload, his, hel, hi, hb⟩,
      ⟨hl', y', i', k', hy', hload', his', hel', hi', hb'⟩ => by
    obtain rfl := Option.some.inj (hy.symm.trans hy')
    obtain rfl := Except.ok.inj (hel.symm.trans hel')
    obtain ⟨rfl, hcode⟩ := ArgsCode.mirror hp _ is his his'
    subst hb hb'
    refine ⟨hl.trans hl'.symm, rfl, .same (.append ?_ hcode) hi hi' (namesNumber_elementInstr hel)⟩
    exact .one hload hload' (.same (namesNumber_load _))
  | .call _ f args, _, _, _, _, _, ⟨targets, code, k, hplan, hargs, hcode, hb⟩,
      ⟨targets', code', k', hplan', hargs', hcode', hb'⟩ => by
    obtain ⟨rfl, hleaves, hmirror⟩ := hp.callPlan (m := m) hplan hplan'
    obtain ⟨rfl, hbefore⟩ := ArgsCode.mirror hp _ args hargs hargs'
    rw [← hmirror.length_eq] at hb'
    subst hb hb'
    exact ⟨hleaves, rfl, hbefore.append (hcode.mirror hcode' hmirror)⟩
  | .newArray _ e dims, _, _, _, _, _, ⟨hl, k, hdims, _, hi, hb⟩,
      ⟨hl', k', hdims', _, hi', hb'⟩ => by
    obtain ⟨rfl, hcode⟩ := ArgsCode.mirror hp _ dims hdims hdims'
    subst hb hb'
    exact ⟨hl.trans hl'.symm, rfl, hcode.same hi hi' rfl⟩

theorem ArgsCode.mirror (hp : Siblings image image' M M' fs fs') {visible : Visible} :
    ∀ (ts : List Ty) (es : List Expr) {a b b' : Nat},
      ArgsCode M m image.strings visible ts es a b →
      ArgsCode M' m' image'.strings visible ts es a b' →
        b = b' ∧ CodeMirror image image' (SameFunction fs fs') m m' a b
  | t :: ts, e :: es, _, _, _, ⟨k, he, hes⟩, ⟨k', he', hes'⟩ => by
    obtain ⟨rfl, hcode⟩ := he.mirror he' fun h h' => (ExprCode.mirror hp e h h').2
    obtain ⟨rfl, hrest⟩ := ArgsCode.mirror hp ts es hes hes'
    exact ⟨rfl, hcode.append hrest⟩
  | [], _, a, _, _, h, h' => by
    unfold ArgsCode at h h'
    subst h h'
    exact ⟨rfl, .nil _⟩
  | _ :: _, [], a, _, _, h, h' => by
    unfold ArgsCode at h h'
    subst h h'
    exact ⟨rfl, .nil _⟩

end

theorem AsCode.mirror (hp : Siblings image image' M M' fs fs') {visible : Visible} {e : Expr}
    {target : Ty} {a b b' : Nat} (h : AsCode M m image.strings visible e target a b)
    (h' : AsCode M' m' image'.strings visible e target a b') :
    b = b' ∧ CodeMirror image image' (SameFunction fs fs') m m' a b :=
  OperandCode.mirror h h' fun hk hk' => (ExprCode.mirror hp e hk hk').2

/-! ### Statements -/

/-- What two methods have between two points: instructions that mirror each other, and the same
local variables. -/
structure Stretch (image image' : Image) (fs fs' : List FunctionDecl) (m m' : Method)
    (p q : Point) : Prop where
  code : CodeMirror image image' (SameFunction fs fs') m m' p.pos q.pos
  locals : ∀ k : Nat, p.slots ≤ k → k < q.slots → m.locals[k]? = m'.locals[k]?

theorem Stretch.of_code {p q : Point}
    (h : CodeMirror image image' (SameFunction fs fs') m m' p.pos q.pos)
    (hslots : q.slots = p.slots) : Stretch image image' fs fs' m m' p q :=
  ⟨h, fun _ hk hk' => by omega⟩

theorem Stretch.around {p e e' q : Point} (h : Stretch image image' fs fs' m m' e e')
    (hbefore : CodeMirror image image' (SameFunction fs fs') m m' p.pos e.pos)
    (hafter : CodeMirror image image' (SameFunction fs fs') m m' e'.pos q.pos)
    (hp : e.slots = p.slots) (hq : q.slots = e'.slots) : Stretch image image' fs fs' m m' p q :=
  ⟨(hbefore.append h.code).append hafter, fun k hk hk' => h.locals k (by omega) (by omega)⟩

theorem Stretch.append {p e e' q : Point} (h : Stretch image image' fs fs' m m' p e)
    (h' : Stretch image image' fs fs' m m' e' q)
    (hbetween : CodeMirror image image' (SameFunction fs fs') m m' e.pos e'.pos)
    (hslots : e'.slots = e.slots) : Stretch image image' fs fs' m m' p q := by
  refine ⟨(h.code.append hbetween).append h'.code, fun k hk hk' => ?_⟩
  by_cases hke : k < e.slots
  · exact h.locals k hk hke
  · exact h'.locals k (by omega) hk'

theorem Stretch.declare {p : Point} {b : Nat} {x : String} {ty : Ty} {visible : Visible}
    (hcode : CodeMirror image image' (SameFunction fs fs') m m' p.pos b)
    (hl : m.locals[p.slots]? = some ⟨x, ty⟩) (hl' : m'.locals[p.slots]? = some ⟨x, ty⟩) :
    Stretch image image' fs fs' m m' p ⟨b, visible, p.slots + 1⟩ := by
  refine ⟨hcode, fun k hk hk' => ?_⟩
  obtain rfl : k = p.slots := Nat.le_antisymm (Nat.lt_succ_iff.mp hk') hk
  rw [hl, hl']

/-- A branch on a condition to the code behind it, and a jump if it does not hold. -/
theorem branch_mirror {R : Nat → Nat → Prop} {yes yes' stop stop' a k pos : Nat}
    (hcond : CodeMirror image image' R m m' a k) (hyes : m.code[k]? = some (.branchIfTrue yes))
    (hyes' : m'.code[k]? = some (.branchIfTrue yes')) (hjump : m.code[k + 1]? = some (.jump stop))
    (hjump' : m'.code[k + 1]? = some (.jump stop')) (hlabel : LabelAt m (k + 2) yes)
    (hlabel' : LabelAt m' (k + 2) yes') (hstop : m.position? stop = some pos)
    (hstop' : m'.position? stop' = some pos) : CodeMirror image image' R m m' a (k + 3) :=
  ((hcond.append (.one hyes hyes' (.branchIfTrue hlabel.2 hlabel'.2))).append
    (.one hjump hjump' (.jump hstop hstop'))).append (hlabel.mirror hlabel')

mutual

theorem StmtCode.mirror (hp : Siblings image image' M M' fs fs') {returnType : Ty} :
    ∀ (s : Stmt) {p q q' : Point}, StmtCode M m image.strings returnType p s q →
      StmtCode M' m' image'.strings returnType p s q' →
        q = q' ∧ Stretch image image' fs fs' m m' p q
  | .expr _ e, p, q, q', ⟨leaves, k, b, he, hd, hq⟩, ⟨leaves', k', b', he', hd', hq'⟩ => by
    obtain ⟨rfl, rfl, hcode⟩ := ExprCode.mirror hp e he he'
    obtain ⟨rfl, hdiscard⟩ := hd.mirror hd'
    subst hq hq'
    exact ⟨rfl, .of_code (hcode.append hdiscard) rfl⟩
  | .decl _ x ty none, p, q, q', ⟨hl, hq⟩, ⟨hl', hq'⟩ => by
    subst hq hq'
    exact ⟨rfl, .declare (.nil _) hl hl'⟩
  | .decl _ x ty (some e), p, q, q', ⟨k, he, hl, hi, hq⟩, ⟨k', he', hl', hi', hq'⟩ => by
    obtain ⟨rfl, hcode⟩ := he.mirror hp he'
    subst hq hq'
    exact ⟨rfl, .declare (hcode.same hi hi' rfl) hl hl'⟩
  | .assign _ x _ value, p, q, q', ⟨y, k, hy, he, hi, hq⟩, ⟨y', k', hy', he', hi', hq'⟩ => by
    obtain rfl := Option.some.inj (hy.symm.trans hy')
    obtain ⟨rfl, hcode⟩ := he.mirror hp he'
    subst hq hq'
    exact ⟨rfl, .of_code (hcode.same hi hi' (namesNumber_store _)) rfl⟩
  | .assignElement _ x is _ value, p, q, q', ⟨y, el, k, k₁, hy, hty, hload, his, he, hi, hq⟩,
      ⟨y', el', k', k₁', hy', hty', hload', his', he', hi', hq'⟩ => by
    obtain rfl := Option.some.inj (hy.symm.trans hy')
    obtain rfl : el = el' := by
      have heq := hty.symm.trans hty'
      simpa using heq
    obtain ⟨rfl, hindices⟩ := ArgsCode.mirror hp _ is his his'
    obtain ⟨rfl, hvalue⟩ := he.mirror hp he'
    subst hq hq'
    refine ⟨rfl, .of_code (.same (.append (.append ?_ hindices) hvalue) hi hi' ?_) rfl⟩
    · exact .one hload hload' (.same (namesNumber_load _))
    · split <;> rfl
  | .ifThen _ cond body, p, q, q', ⟨yes, stop, k, e, hc, hb, hj, hy, hbody, hs, hq⟩,
      ⟨yes', stop', k', e', hc', hb', hj', hy', hbody', hs', hq'⟩ => by
    obtain ⟨rfl, hcond⟩ := hc.mirror hp hc'
    obtain ⟨rfl, hstretch⟩ := StmtsCode.mirror hp body hbody hbody'
    subst hq hq'
    have hbranch := branch_mirror hcond hb hb' hj hj' hy hy' hs.2 hs'.2
    exact ⟨rfl, hstretch.around hbranch (hs.mirror hs') rfl rfl⟩
  | .ifElse _ cond body other, p, q, q',
      ⟨yes, stop, k, e, e₁, hc, hb, hother, hj, hy, hbody, hs, hq⟩,
      ⟨yes', stop', k', e', e₁', hc', hb', hother', hj', hy', hbody', hs', hq'⟩ => by
    obtain ⟨rfl, hcond⟩ := hc.mirror hp hc'
    obtain ⟨rfl, hstretch⟩ := StmtsCode.mirror hp other hother hother'
    obtain ⟨rfl, hstretch'⟩ := StmtsCode.mirror hp body hbody hbody'
    subst hq hq'
    have hbefore := hcond.append (.one hb hb' (.branchIfTrue hy.2 hy'.2))
    refine ⟨rfl, .around (.append hstretch hstretch' ?_ rfl) hbefore (hs.mirror hs') rfl rfl⟩
    exact .append (.one hj hj' (.jump hs.2 hs'.2)) (hy.mirror hy')
  | .while _ cond body, p, q, q',
      ⟨test, yes, stop, k, e, ht, hc, hb, hj, hy, hbody, hjt, hs, hq⟩,
      ⟨test', yes', stop', k', e', ht', hc', hb', hj', hy', hbody', hjt', hs', hq'⟩ => by
    obtain ⟨rfl, hcond⟩ := hc.mirror hp hc'
    obtain ⟨rfl, hstretch⟩ := StmtsCode.mirror hp body hbody hbody'
    subst hq hq'
    have hbranch := branch_mirror (.append (ht.mirror ht') hcond) hb hb' hj hj' hy hy' hs.2 hs'.2
    refine ⟨rfl, hstretch.around hbranch ?_ rfl rfl⟩
    exact .append (.one hjt hjt' (.jump ht.2 ht'.2)) (hs.mirror hs')
  | .doWhile _ body cond, p, q, q', ⟨again, test, stop, e, k, ha, hbody, ht, hc, hb, hs, hq⟩,
      ⟨again', test', stop', e', k', ha', hbody', ht', hc', hb', hs', hq'⟩ => by
    obtain ⟨rfl, hstretch⟩ := StmtsCode.mirror hp body hbody hbody'
    obtain ⟨rfl, hcond⟩ := hc.mirror hp hc'
    subst hq hq'
    refine ⟨rfl, hstretch.around (ha.mirror ha') ?_ rfl rfl⟩
    exact ((CodeMirror.one ht ht' (.label test test')).append hcond).append
      ((CodeMirror.one hb hb' (.branchIfTrue ha.2 ha'.2)).append
        (.one hs hs' (.label stop stop')))
  | .ret _ none, p, q, q', ⟨hi, hq⟩, ⟨hi', hq'⟩ => by
    subst hq hq'
    exact ⟨rfl, .of_code (.one hi hi' (.same rfl)) rfl⟩
  | .ret _ (some value), p, q, q', h, h' => by
    unfold StmtCode at h h'
    split at h
    · next hv =>
      rw [if_pos hv] at h'
      obtain ⟨k, he, hi, rfl⟩ := h
      obtain ⟨k', he', hi', rfl⟩ := h'
      obtain ⟨rfl, hcode⟩ := he.mirror hp he'
      exact ⟨rfl, .of_code (hcode.same hi hi' rfl) rfl⟩
    · next hv =>
      rw [if_neg hv] at h'
      obtain ⟨leaves, k, b, he, hd, hi, rfl⟩ := h
      obtain ⟨leaves', k', b', he', hd', hi', rfl⟩ := h'
      obtain ⟨rfl, rfl, hcode⟩ := ExprCode.mirror hp value he he'
      obtain ⟨rfl, hdiscard⟩ := hd.mirror hd'
      exact ⟨rfl, .of_code ((hcode.append hdiscard).same hi hi' rfl) rfl⟩
  | .block _ body, p, q, q', ⟨e, hbody, hq⟩, ⟨e', hbody', hq'⟩ => by
    obtain ⟨rfl, hstretch⟩ := StmtsCode.mirror hp body hbody hbody'
    subst hq hq'
    exact ⟨rfl, hstretch.around (.nil _) (.nil _) rfl rfl⟩

theorem StmtsCode.mirror (hp : Siblings image image' M M' fs fs') {returnType : Ty} :
    ∀ (ss : List Stmt) {p q q' : Point}, StmtsCode M m image.strings returnType p ss q →
      StmtsCode M' m' image'.strings returnType p ss q' →
        q = q' ∧ Stretch image image' fs fs' m m' p q
  | [], p, q, q', h, h' => by
    unfold StmtsCode at h h'
    subst h h'
    exact ⟨rfl, .of_code (.nil _) rfl⟩
  | s :: ss, p, q, q', ⟨e, hs, hss⟩, ⟨e', hs', hss'⟩ => by
    obtain ⟨rfl, hfirst⟩ := StmtCode.mirror hp s hs hs'
    obtain ⟨rfl, hrest⟩ := StmtsCode.mirror hp ss hss hss'
    exact ⟨rfl, hfirst.append hrest (.nil _) rfl⟩

end

/-! ### Images -/

theorem WholeCode.mirror (hp : Siblings image image' M M' fs fs') {f : FunctionDecl}
    (hm : MethodOf image.hostRoutines m f) (hm' : MethodOf image'.hostRoutines m' f)
    (hext : f.external = none) {e e' : Point} (h : WholeCode M image.strings m f e)
    (h' : WholeCode M' image'.strings m' f e') :
    MethodMirror image image' (SameFunction fs fs') m m' := by
  obtain ⟨rfl, hstretch⟩ := StmtsCode.mirror hp f.body h.body h'.body
  have hcode := (hstretch.code.same h.nop h'.nop rfl).same h.ret h'.ret rfl
  have hsize := h.size
  have hsize' := h'.size
  have hslots := h.locals
  have hslots' := h'.locals
  refine ⟨hm.name.trans hm'.name.symm, hm.params.trans hm'.params.symm,
    hm.returnType.trans hm'.returnType.symm, Array.ext_getElem? fun k => ?_, hm.body hext,
    hm'.body hext, fun pc => ?_⟩
  · by_cases hk : k < e.slots
    · exact hstretch.locals k (Nat.zero_le k) hk
    · rw [Array.getElem?_eq_none (by omega), Array.getElem?_eq_none (by omega)]
  · by_cases hpc : pc < e.pos + 2
    · obtain ⟨i, i', hi, hi', hmirror⟩ := hcode pc (Nat.zero_le pc) hpc
      rw [hi, hi']
      exact .some hmirror
    · rw [Array.getElem?_eq_none (by omega), Array.getElem?_eq_none (by omega)]
      exact .none

end

/-- The method to start with is that of a function with a body. -/
theorem ImageOf.entry_body {image : Image} {M : Methods} {fs : List FunctionDecl}
    (him : ImageOf image M fs) {id : Nat} (hid : image.entry = some id) :
    ∃ f, fs[id]? = some f ∧ findFunction? fs "main" 0 = some f ∧ f.external = none := by
  obtain ⟨f, hf, hfind⟩ := him.entry_function hid
  obtain ⟨m, hm, hhost, -⟩ := him.entry_spec hid
  obtain ⟨m', hm', hmf, -⟩ := Forall₂.getElem? him.methods hf
  rw [Array.getElem?_toList, hm] at hm'
  obtain rfl := Option.some.inj hm'
  have hbody : f.isExternal = false := by
    rw [← hmf.host_isSome, hhost]
    rfl
  exact ⟨f, hf, hfind, by simpa [FunctionDecl.isExternal] using hbody⟩

/-- The images of two programs in which calls find the same functions mirror each other. -/
theorem lowerProgram_mirror {p q : Program} {image image' : Image}
    (h : lowerProgram p = .ok image) (h' : lowerProgram q = .ok image')
    (hfound : ∀ name arity, findFunction? p.functions name arity =
      findFunction? q.functions name arity)
    (hentry : image.entry.isSome = true) (hentry' : image'.entry.isSome = true) :
    Mirror image image' (SameFunction p.functions q.functions) := by
  obtain ⟨d, -, him, hbodies⟩ := lowerProgram_bodies h
  obtain ⟨d', -, him', hbodies'⟩ := lowerProgram_bodies h'
  have hp : Siblings image image' d.methods d'.methods p.functions q.functions :=
    ⟨him.declared, him'.declared, hfound⟩
  constructor
  · rintro id id' ⟨f, hf, hf', hext⟩
    obtain ⟨m, hm, hmf, -⟩ := Forall₂.getElem? him.methods hf
    obtain ⟨m', hm', hmf', -⟩ := Forall₂.getElem? him'.methods hf'
    rw [Array.getElem?_toList] at hm hm'
    have hbody : f.isExternal = false := by simp [FunctionDecl.isExternal, hext]
    obtain ⟨e, hcode⟩ := hbodies id f m hf hm hbody
    obtain ⟨e', hcode'⟩ := hbodies' id' f m' hf' hm' hbody
    exact ⟨m, m', hm, hm', hcode.mirror hp hmf hmf' hext hcode'⟩
  · obtain ⟨id, hid⟩ := Option.isSome_iff_exists.mp hentry
    obtain ⟨id', hid'⟩ := Option.isSome_iff_exists.mp hentry'
    obtain ⟨f, hf, hfind, hext⟩ := him.entry_body hid
    obtain ⟨f', hf', hfind', -⟩ := him'.entry_body hid'
    rw [hfound, hfind'] at hfind
    obtain rfl := Option.some.inj hfind
    rw [hid, hid']
    exact .some ⟨f', hf, hf', hext⟩

end Quill.Lowering
