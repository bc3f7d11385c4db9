import Quill.Proofs.Lowering.Extent
import Quill.Proofs.Lowering.Limits

/-! # Places of names and declarations

A block of a function is named by a way that leads to it, and a statement by its block and its
number there.  A pass over a function goes through the blocks in one of two orders: the branches of
an `ifElse` as they stand, or the second before the first.  `Opens inOrder body way ss n` says that
the block `ss` stands at the end of a way, and that a pass in this order has met `n` declarations
before it.

The declarations that a pass meets make a list (`stmtsPlaces`), in which each stands at the number
of those before it (`Opens.getElem?_places`).  So numbers that are given out in the order of a pass
tell the declarations apart. -/

namespace Quill

/-- The way to a block, its last step first: the number of a statement in the block around it, and
the number of its body.  No step leads to the outermost block. -/
abbrev Way := List (Nat × Nat)

def blockAt? (body : List Stmt) : Way → Option (List Stmt)
  | [] => some body
  | (k, j) :: way => ((blockAt? body way).bind (·[k]?)).bind (·.bodies[j]?)

/-- The statement with a number in the block at the end of a way. -/
def stmtAt? (body : List Stmt) (way : Way) (k : Nat) : Option Stmt :=
  (blockAt? body way).bind (·[k]?)

/-- The ways for a list to be a body of a statement. -/
inductive IsBody (body : List Stmt) : Stmt → Nat → Prop
  | ifThen {span : Span} {cond : Expr} : IsBody body (.ifThen span cond body) 0
  | first {span : Span} {cond : Expr} {other : List Stmt} :
    IsBody body (.ifElse span cond body other) 0
  | second {span : Span} {cond : Expr} {other : List Stmt} :
    IsBody body (.ifElse span cond other body) 1
  | while {span : Span} {cond : Expr} : IsBody body (.while span cond body) 0
  | doWhile {span : Span} {cond : Expr} : IsBody body (.doWhile span body cond) 0
  | block {span : Span} : IsBody body (.block span body) 0

theorem isBody_of_bodies {s : Stmt} {j : Nat} {body : List Stmt} (h : s.bodies[j]? = some body) :
    IsBody body s j := by
  match s, j with
  | .ifThen _ _ _, 0 | .ifElse _ _ _ _, 0 | .ifElse _ _ _ _, 1 | .while _ _ _, 0
  | .doWhile _ _ _, 0 | .block _ _, 0 =>
    obtain rfl := Option.some.inj h
    constructor
  | .ifThen _ _ _, _ + 1 | .ifElse _ _ _ _, _ + 2 | .while _ _ _, _ + 1 | .doWhile _ _ _, _ + 1
  | .block _ _, _ + 1 | .expr _ _, _ | .decl _ _ _ _, _ | .assign _ _ _ _, _
  | .assignElement _ _ _ _ _, _ | .ret _ _, _ => cases h

/-! ### Names and declarations -/

mutual

/-- The variables that an expression names. -/
def Expr.names : Expr → List String
  | .literal _ _ => []
  | .name _ x => [x]
  | .arith _ _ l r | .compare _ _ l r | .logic _ _ l r => l.names ++ r.names
  | .not _ x => x.names
  | .index _ a is => a :: exprsNames is
  | .call _ _ es | .newArray _ _ es => exprsNames es

/-- The variables that a list of expressions names. -/
def exprsNames : List Expr → List String
  | [] => []
  | e :: es => e.names ++ exprsNames es

end

theorem mem_exprsNames {x : String} {es : List Expr} :
    x ∈ exprsNames es ↔ ∃ e ∈ es, x ∈ e.names := by
  induction es with
  | nil => simp [exprsNames]
  | cons e es ih => rw [exprsNames, List.mem_append, ih, List.exists_mem_cons_iff]

/-- The expressions of a statement itself, outside its bodies. -/
def Stmt.exprs : Stmt → List Expr
  | .expr _ e | .assign _ _ _ e | .ifThen _ e _ | .ifElse _ e _ _ | .while _ e _ | .doWhile _ _ e =>
    [e]
  | .decl _ _ _ e | .ret _ e => e.toList
  | .assignElement _ _ is _ value => is ++ [value]
  | .block _ _ => []

/-- The variable that a statement assigns, or an element of it. -/
def Stmt.target? : Stmt → Option String
  | .assign _ x _ _ | .assignElement _ x _ _ _ => some x
  | .expr _ _ | .decl _ _ _ _ | .ifThen _ _ _ | .ifElse _ _ _ _ | .while _ _ _ | .doWhile _ _ _
  | .ret _ _ | .block _ _ => none

/-- The variables that a statement names itself, outside its bodies: those it reads, indexes or
assigns. -/
def Stmt.names (s : Stmt) : List String := s.target?.toList ++ exprsNames s.exprs

/-- The variable that a statement declares itself, with its type. -/
def Stmt.declared? : Stmt → Option (String × Ty)
  | .decl _ x ty _ => some (x, ty)
  | _ => none

/-- A declaration of a variable in a function: one of its parameters, or a statement. -/
inductive Declaration where
  | param (k : Nat)
  | stmt (way : Way) (k : Nat)
  deriving DecidableEq, Repr

/-- The variable that a function declares there, with its type. -/
def Declaration.declares? (f : FunctionDecl) : Declaration → Option (String × Ty)
  | .param k => f.params[k]?.map fun p => (p.name, p.ty)
  | .stmt way k => (stmtAt? f.body way k).bind Stmt.declared?

/-! ### The order of declarations -/

/-- The number of declarations in the bodies of a statement that a pass goes through before the
`j`-th. -/
def Stmt.before (inOrder : Bool) : Stmt → Nat → Nat
  | .ifElse _ _ body other, j =>
    if inOrder then (if j = 0 then 0 else stmtsDeclarations body)
    else (if j = 0 then stmtsDeclarations other else 0)
  | _, _ => 0

/-- The block stands at the end of a way, and so many declarations come before it. -/
inductive Opens (inOrder : Bool) (body : List Stmt) : Way → List Stmt → Nat → Prop
  | outermost : Opens inOrder body [] body 0
  | inner {way : Way} {ss inner : List Stmt} {n k j : Nat} {s : Stmt} :
    Opens inOrder body way ss n → ss[k]? = some s → s.bodies[j]? = some inner →
    Opens inOrder body ((k, j) :: way) inner
      (n + stmtsDeclarations (ss.take k) + s.before inOrder j)

mutual

/-- The places of the declarations in a statement, in the order of a pass; the statement has the
number `k` in the block at the end of a way. -/
def Stmt.places (inOrder : Bool) (way : Way) (k : Nat) : Stmt → List (Way × Nat)
  | .decl _ _ _ _ => [(way, k)]
  | .ifThen _ _ body | .while _ _ body | .doWhile _ body _ | .block _ body =>
    stmtsPlaces inOrder ((k, 0) :: way) 0 body
  | .ifElse _ _ body other =>
    if inOrder then
      stmtsPlaces inOrder ((k, 0) :: way) 0 body ++ stmtsPlaces inOrder ((k, 1) :: way) 0 other
    else stmtsPlaces inOrder ((k, 1) :: way) 0 other ++ stmtsPlaces inOrder ((k, 0) :: way) 0 body
  | .expr _ _ | .assign _ _ _ _ | .assignElement _ _ _ _ _ | .ret _ _ => []

/-- The places of the declarations in a list of statements, which have the numbers from `k` on. -/
def stmtsPlaces (inOrder : Bool) (way : Way) (k : Nat) : List Stmt → List (Way × Nat)
  | [] => []
  | s :: rest => s.places inOrder way k ++ stmtsPlaces inOrder way (k + 1) rest

end

mutual

theorem Stmt.length_places (inOrder : Bool) (way : Way) (k : Nat) :
    ∀ s : Stmt, (s.places inOrder way k).length = s.declarations
  | .decl _ _ _ _ => rfl
  | .ifThen _ _ body | .while _ _ body | .doWhile _ body _ | .block _ body =>
    length_stmtsPlaces inOrder ((k, 0) :: way) 0 body
  | .ifElse _ _ body other => by
    have hbody := length_stmtsPlaces inOrder ((k, 0) :: way) 0 body
    have hother := length_stmtsPlaces inOrder ((k, 1) :: way) 0 other
    rw [Stmt.places, Stmt.declarations]
    split
    · rw [List.length_append, hbody, hother]
    · rw [List.length_append, hbody, hother]
      omega
  | .expr _ _ | .assign _ _ _ _ | .assignElement _ _ _ _ _ | .ret _ _ => rfl

theorem length_stmtsPlaces (inOrder : Bool) (way : Way) (k : Nat) :
    ∀ ss : List Stmt, (stmtsPlaces inOrder way k ss).length = stmtsDeclarations ss
  | [] => rfl
  | s :: rest => by
    rw [stmtsPlaces, List.length_append, Stmt.length_places, length_stmtsPlaces, stmtsDeclarations]

end

theorem stmtsPlaces_at (inOrder : Bool) (way : Way) {ss : List Stmt} {i : Nat} {s : Stmt}
    (hi : ss[i]? = some s) :
    ∀ k, ∃ post, stmtsPlaces inOrder way k ss =
      stmtsPlaces inOrder way k (ss.take i) ++ s.places inOrder way (k + i) ++ post := by
  induction ss generalizing i with
  | nil => cases hi
  | cons s' rest ih =>
    intro k
    cases i with
    | zero =>
      obtain rfl := Option.some.inj hi
      exact ⟨stmtsPlaces inOrder way (k + 1) rest, rfl⟩
    | succ i =>
      obtain ⟨post, hpost⟩ := ih hi (k + 1)
      refine ⟨post, ?_⟩
      rw [List.take_succ_cons, stmtsPlaces, stmtsPlaces, hpost, Nat.add_assoc, Nat.add_comm 1 i]
      simp only [List.append_assoc]

theorem IsBody.places (inOrder : Bool) (way : Way) (k : Nat) {s : Stmt} {j : Nat}
    {body : List Stmt} (h : IsBody body s j) :
    ∃ pre post, s.places inOrder way k =
      pre ++ stmtsPlaces inOrder ((k, j) :: way) 0 body ++ post ∧
        pre.length = s.before inOrder j := by
  cases h with
  | ifThen | «while» | doWhile | block => exact ⟨[], [], by simp [Stmt.places], rfl⟩
  | @first _ _ other =>
    cases inOrder with
    | true => exact ⟨[], stmtsPlaces true ((k, 1) :: way) 0 other, rfl, rfl⟩
    | false =>
      refine ⟨stmtsPlaces false ((k, 1) :: way) 0 other, [], ?_, ?_⟩
      · simp [Stmt.places]
      · exact length_stmtsPlaces ..
  | @second _ _ body' =>
    cases inOrder with
    | true =>
      refine ⟨stmtsPlaces true ((k, 0) :: way) 0 body', [], ?_, ?_⟩
      · simp [Stmt.places]
      · exact length_stmtsPlaces ..
    | false => exact ⟨[], stmtsPlaces false ((k, 0) :: way) 0 body', rfl, rfl⟩

namespace Opens

variable {inOrder : Bool} {body : List Stmt}

theorem blockAt? {way : Way} {ss : List Stmt} {n : Nat} (h : Opens inOrder body way ss n) :
    blockAt? body way = some ss := by
  induction h with
  | outermost => rfl
  | inner _ hk hj ih => rw [Quill.blockAt?, ih, Option.bind_some, hk, Option.bind_some, hj]

/-- The declarations of a block stand together, behind those that come before it. -/
theorem places {way : Way} {ss : List Stmt} {n : Nat} (h : Opens inOrder body way ss n) :
    ∃ pre post, stmtsPlaces inOrder [] 0 body = pre ++ stmtsPlaces inOrder way 0 ss ++ post ∧
      pre.length = n := by
  induction h with
  | outermost => exact ⟨[], [], by simp, rfl⟩
  | @inner way ss inner n k j s _ hk hj ih =>
    obtain ⟨pre, post, hpre, hn⟩ := ih
    obtain ⟨after, hsplit⟩ := stmtsPlaces_at inOrder way hk 0
    obtain ⟨pre', post', hbody, hn'⟩ := (isBody_of_bodies hj).places inOrder way k
    rw [Nat.zero_add] at hsplit
    refine ⟨pre ++ stmtsPlaces inOrder way 0 (ss.take k) ++ pre', post' ++ after ++ post, ?_, ?_⟩
    · rw [hpre, hsplit, hbody]
      simp only [List.append_assoc]
    · rw [List.length_append, List.length_append, length_stmtsPlaces, hn, hn']

/-- A declaration stands at the number of those that come before it. -/
theorem getElem?_places {way : Way} {ss : List Stmt} {n k : Nat} {s : Stmt} {v : String × Ty}
    (h : Opens inOrder body way ss n) (hk : ss[k]? = some s) (hs : s.declared? = some v) :
    (stmtsPlaces inOrder [] 0 body)[n + stmtsDeclarations (ss.take k)]? = some (way, k) := by
  obtain ⟨pre, post, hpre, hn⟩ := h.places
  obtain ⟨after, hsplit⟩ := stmtsPlaces_at inOrder way hk 0
  have hplace : s.places inOrder way k = [(way, k)] := by
    cases s with
    | decl _ _ _ _ => rfl
    | _ => cases hs
  have hlen : (pre ++ stmtsPlaces inOrder way 0 (ss.take k)).length =
      n + stmtsDeclarations (ss.take k) := by
    rw [List.length_append, length_stmtsPlaces, hn]
  rw [hpre, hsplit, Nat.zero_add, hplace, ← hlen]
  simp

end Opens

end Quill
