import Quill.Proofs.Lowering.Layout

/-! # Where statements lie

A statement inside a function is named by a route: which body of the statement around it, and which
place in that body, from the outside to the inside.  `Lies route p s a t b` says that the code of
`s` starts at `p` and that the statement `t`, at the end of the route, has its code from `a` to `b`.
Every statement of a tree that is laid out lies somewhere (`StmtCode.lies`). -/

namespace Quill

/-- The lists of statements that a statement is made of. -/
def Stmt.bodies : Stmt → List (List Stmt)
  | .ifThen _ _ body | .while _ _ body | .doWhile _ body _ | .block _ body => [body]
  | .ifElse _ _ body other => [body, other]
  | _ => []

/-- Body after body, the number of the body and the place in it. -/
abbrev Route := List (Nat × Nat)

/-- The statement at the end of a route. -/
def Stmt.at? : Route → Stmt → Option Stmt
  | [], s => some s
  | (j, k) :: route, s => (s.bodies[j]?.bind (·[k]?)).bind (at? route)

/-- The body of a function as one statement. -/
def FunctionDecl.block (f : FunctionDecl) : Stmt := .block f.span f.body

namespace Lowering

open Code

section

variable (M : Methods) (m : Method) (strings : Array String) (returnType : Ty)

/-- Where the code of a body starts, given where that of the statement around it does. -/
inductive BodyCode (p : Point) : Stmt → Nat → List Stmt → Point → Prop
  | ifThen {span : Span} {cond : Expr} {body : List Stmt} {yes stop k : Nat} :
    AsCode M m strings p.visible cond .boolean p.pos k →
    m.code[k]? = some (.branchIfTrue yes) → m.code[k + 1]? = some (.jump stop) →
    m.code[k + 2]? = some (.label yes) →
    BodyCode p (.ifThen span cond body) 0 body { p with pos := k + 3 }
  | other {span : Span} {cond : Expr} {body other : List Stmt} {yes k : Nat} :
    AsCode M m strings p.visible cond .boolean p.pos k →
    m.code[k]? = some (.branchIfTrue yes) →
    BodyCode p (.ifElse span cond body other) 1 other { p with pos := k + 1 }
  | ifElse {span : Span} {cond : Expr} {body other : List Stmt} {yes stop k : Nat} {e : Point} :
    AsCode M m strings p.visible cond .boolean p.pos k →
    m.code[k]? = some (.branchIfTrue yes) →
    StmtsCode M m strings returnType { p with pos := k + 1 } other e →
    m.code[e.pos]? = some (.jump stop) → m.code[e.pos + 1]? = some (.label yes) →
    BodyCode p (.ifElse span cond body other) 0 body ⟨e.pos + 2, p.visible, e.slots⟩
  | while {span : Span} {cond : Expr} {body : List Stmt} {test yes stop k : Nat} :
    m.code[p.pos]? = some (.label test) →
    AsCode M m strings p.visible cond .boolean (p.pos + 1) k →
    m.code[k]? = some (.branchIfTrue yes) → m.code[k + 1]? = some (.jump stop) →
    m.code[k + 2]? = some (.label yes) →
    BodyCode p (.while span cond body) 0 body { p with pos := k + 3 }
  | doWhile {span : Span} {cond : Expr} {body : List Stmt} {again : Nat} :
    m.code[p.pos]? = some (.label again) →
    BodyCode p (.doWhile span body cond) 0 body { p with pos := p.pos + 1 }
  | block {span : Span} {body : List Stmt} : BodyCode p (.block span body) 0 body p

/-- The code of a statement inside another one. -/
def Lies : Route → Point → Stmt → Point → Stmt → Point → Prop
  | [], p, s, a, t, b => a = p ∧ t = s ∧ StmtCode M m strings returnType p s b
  | (j, k) :: route, p, s, a, t, b =>
    ∃ body c o u, BodyCode M m strings returnType p s j body c ∧
      StmtsCode M m strings returnType c (body.take k) o ∧ body[k]? = some u ∧
      Lies route o u a t b

end

section

variable {M : Methods} {m : Method} {strings : Array String} {returnType : Ty}

theorem StmtCode.body {s : Stmt} {p q : Point} (h : StmtCode M m strings returnType p s q) {j : Nat}
    {body : List Stmt} (hj : s.bodies[j]? = some body) :
    ∃ c e, BodyCode M m strings returnType p s j body c ∧
      StmtsCode M m strings returnType c body e := by
  have hone : ∀ {only : List Stmt}, [only][j]? = some body → j = 0 ∧ only = body := by
    intro only hj
    cases j with
    | zero => exact ⟨rfl, Option.some.inj hj⟩
    | succ j => cases hj
  cases s with
  | ifThen span cond body' =>
    obtain ⟨rfl, rfl⟩ := hone hj
    obtain ⟨yes, stop, k, e, hcond, hbranch, hjump, hyes, hbody, -, -⟩ := h
    exact ⟨_, e, .ifThen hcond hbranch hjump hyes.1, hbody⟩
  | ifElse span cond body' other =>
    obtain ⟨yes, stop, k, e, e', hcond, hbranch, hother, hjump, hyes, hbody, -, -⟩ := h
    cases j with
    | zero =>
      obtain rfl := Option.some.inj hj
      exact ⟨_, e', .ifElse hcond hbranch hother hjump hyes.1, hbody⟩
    | succ j =>
      cases j with
      | zero =>
        obtain rfl := Option.some.inj hj
        exact ⟨_, e, .other hcond hbranch, hother⟩
      | succ j => cases hj
  | «while» span cond body' =>
    obtain ⟨rfl, rfl⟩ := hone hj
    obtain ⟨test, yes, stop, k, e, htest, hcond, hbranch, hjump, hyes, hbody, -, -, -⟩ := h
    exact ⟨_, e, .while htest.1 hcond hbranch hjump hyes.1, hbody⟩
  | doWhile span body' cond =>
    obtain ⟨rfl, rfl⟩ := hone hj
    obtain ⟨again, test, stop, e, k, hagain, hbody, -, -, -, -, -⟩ := h
    exact ⟨_, e, .doWhile hagain.1, hbody⟩
  | block span body' =>
    obtain ⟨rfl, rfl⟩ := hone hj
    obtain ⟨e, hbody, -⟩ := h
    exact ⟨p, e, .block, hbody⟩
  | _ => cases hj

theorem StmtsCode.at {ss : List Stmt} {k : Nat} {s : Stmt} (hk : ss[k]? = some s) :
    ∀ {p q : Point}, StmtsCode M m strings returnType p ss q →
      ∃ o e, StmtsCode M m strings returnType p (ss.take k) o ∧
        StmtCode M m strings returnType o s e := by
  induction ss generalizing k with
  | nil => cases hk
  | cons s' rest ih =>
    rintro p q ⟨e, hs, hrest⟩
    cases k with
    | zero =>
      obtain rfl := Option.some.inj hk
      exact ⟨p, e, rfl, hs⟩
    | succ k =>
      obtain ⟨o, e', ho, he'⟩ := ih hk hrest
      exact ⟨o, e', ⟨e, hs, ho⟩, he'⟩

/-- Every statement inside one that is laid out lies somewhere. -/
theorem StmtCode.lies {route : Route} {t : Stmt} :
    ∀ {s : Stmt} {p q : Point}, StmtCode M m strings returnType p s q → s.at? route = some t →
      ∃ a b, Lies M m strings returnType route p s a t b := by
  induction route with
  | nil =>
    intro s p q h hat
    obtain rfl := Option.some.inj hat
    exact ⟨p, q, rfl, rfl, h⟩
  | cons step route ih =>
    obtain ⟨j, k⟩ := step
    intro s p q h hat
    obtain ⟨u, hu, hat⟩ := Option.bind_eq_some_iff.mp hat
    obtain ⟨body, hbody, hu⟩ := Option.bind_eq_some_iff.mp hu
    obtain ⟨c, e, hc, hcode⟩ := h.body hbody
    obtain ⟨o, e', ho, hstmt⟩ := hcode.at hu
    obtain ⟨a, b, hlies⟩ := ih hstmt hat
    exact ⟨a, b, body, c, o, u, hc, ho, hu, hlies⟩

theorem Lies.code {route : Route} {a b : Point} {t : Stmt} :
    ∀ {s : Stmt} {p : Point}, Lies M m strings returnType route p s a t b →
      StmtCode M m strings returnType a t b := by
  induction route with
  | nil =>
    rintro s p ⟨rfl, rfl, h⟩
    exact h
  | cons step route ih =>
    rintro s p ⟨body, c, o, u, -, -, -, h⟩
    exact ih h

end

end Lowering

end Quill
