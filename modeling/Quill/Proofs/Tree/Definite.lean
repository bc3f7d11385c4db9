import Mathlib.Data.Finset.Basic
import Quill.Proofs.Tree.Places

/-! # Definite assignment

Which declarations of a body have a value for certain, point by point, without a symbol table.  A
point has the declarations in scope, block by block, and the set of those that are assigned on every
path to it.  `Stmt.flow` follows a statement: a declaration with an initializer and an assignment
add to the set; after an `if` with an `else` the set has what both branches add, after a block or a
`do … while` what the body adds, and after other statements it is as before.

`Stmt.reads` lists where variables are read, in the order of the text except that a value comes
before the element that it is assigned to, each with the point at which it is read.  A read is
unassigned if its name means a declaration that is not in the set of the point. -/

namespace Quill

/-- A point of a body: the declarations in scope by name, the innermost block first and the newest
declaration of a block first, and the declarations that are definitely assigned. -/
structure Point where
  blocks : List (List (String × Declaration))
  assigned : Finset Declaration

namespace Point

/-- The declaration that a name means. -/
def find? (P : Point) (x : String) : Option Declaration := P.blocks.findSome? (·.lookup x)

/-- The point after a declaration.  It is rejected if the innermost block declares the name. -/
def declare (P : Point) (x : String) (d : Declaration) (isInitialized : Bool) : Point :=
  match P.blocks with
  | [] => P
  | b :: rest =>
    if (b.lookup x).isSome then P
    else ⟨((x, d) :: b) :: rest, if isInitialized then insert d P.assigned else P.assigned⟩

/-- The point after an assignment to a name. -/
def assign (P : Point) (x : String) : Point :=
  match P.find? x with
  | some d => { P with assigned := insert d P.assigned }
  | none => P

/-- The point at the start of a block. -/
def inner (P : Point) : Point := { P with blocks := [] :: P.blocks }

/-- The point after the declarations of parameters, which have the numbers from `k` on.  A parameter
is assigned. -/
def withParams (P : Point) (k : Nat) : List Param → Point
  | [] => P
  | p :: ps => (P.declare p.name (.param k) true).withParams (k + 1) ps

/-- The point at the start of a body. -/
def entry (params : List Param) : Point := withParams ⟨[[]], ∅⟩ 0 params

end Point

mutual

/-- The point after a statement, which has the number `k` in the block at the end of a way. -/
def Stmt.flow (way : Way) (k : Nat) (P : Point) : Stmt → Point
  | .decl _ x _ init => P.declare x (.stmt way k) init.isSome
  | .assign _ x _ _ => P.assign x
  | .ifElse _ _ body other =>
    { P with assigned := P.assigned ∪ ((stmtsFlow ((k, 0) :: way) 0 P.inner body).assigned ∩
      (stmtsFlow ((k, 1) :: way) 0 P.inner other).assigned) }
  | .doWhile _ body _ | .block _ body =>
    { P with assigned := (stmtsFlow ((k, 0) :: way) 0 P.inner body).assigned }
  | .expr _ _ | .assignElement _ _ _ _ _ | .ifThen _ _ _ | .while _ _ _ | .ret _ _ => P

/-- The point after a list of statements, which have the numbers from `k` on. -/
def stmtsFlow (way : Way) (k : Nat) (P : Point) : List Stmt → Point
  | [] => P
  | s :: rest => stmtsFlow way (k + 1) (s.flow way k P) rest

end

/-! ### Reads -/

mutual

/-- The variables that an expression reads, with the spans of the reads.  An element is read at the
span of the whole expression. -/
def Expr.reads : Expr → List (String × Span)
  | .literal _ _ => []
  | .name n x => [(x, n.span)]
  | .arith _ _ l r | .compare _ _ l r | .logic _ _ l r => l.reads ++ r.reads
  | .not _ x => x.reads
  | .index n a is => (a, n.span) :: exprsReads is
  | .call _ _ es | .newArray _ _ es => exprsReads es

/-- The variables that a list of expressions reads. -/
def exprsReads : List Expr → List (String × Span)
  | [] => []
  | e :: es => e.reads ++ exprsReads es

end

/-- A read of a variable at a point. -/
structure Read where
  name : String
  span : Span
  point : Point

/-- The name means a declaration that is not definitely assigned where it is read. -/
def Read.unassigned (r : Read) : Bool := (r.point.find? r.name).any (· ∉ r.point.assigned)

def Point.reads (P : Point) (rs : List (String × Span)) : List Read := rs.map fun r => ⟨r.1, r.2, P⟩

mutual

/-- The reads in a statement, which has the number `k` in the block at the end of a way. -/
def Stmt.reads (way : Way) (k : Nat) (P : Point) : Stmt → List Read
  | .expr _ e | .assign _ _ _ e => P.reads e.reads
  | .decl _ _ _ init | .ret _ init => P.reads (exprsReads init.toList)
  | .assignElement _ a is target value =>
    P.reads (value.reads ++ (a, target) :: exprsReads is)
  | .ifThen _ cond body | .while _ cond body =>
    P.reads cond.reads ++ stmtsReads ((k, 0) :: way) 0 P.inner body
  | .ifElse _ cond body other =>
    P.reads cond.reads ++ stmtsReads ((k, 0) :: way) 0 P.inner body ++
      stmtsReads ((k, 1) :: way) 0 P.inner other
  | .doWhile span body cond =>
    stmtsReads ((k, 0) :: way) 0 P.inner body ++
      ((Stmt.doWhile span body cond).flow way k P).reads cond.reads
  | .block _ body => stmtsReads ((k, 0) :: way) 0 P.inner body

/-- The reads in a list of statements, which have the numbers from `k` on. -/
def stmtsReads (way : Way) (k : Nat) (P : Point) : List Stmt → List Read
  | [] => []
  | s :: rest => s.reads way k P ++ stmtsReads way (k + 1) (s.flow way k P) rest

end

/-- The reads in the body of a function. -/
def FunctionDecl.reads (f : FunctionDecl) : List Read := stmtsReads [] 0 (.entry f.params) f.body

/-! ### Where declarations stand

A statement brings declarations into scope and into the set that stand in it.  So the declarations
that come after it are new when they come. -/

namespace Declaration

/-- The place of a declaration as a way; that of a statement begins with its number. -/
def path : Declaration → Way
  | .param _ => []
  | .stmt way k => (k, 0) :: way

/-- The declaration stands in the statement with the number `k` of the block at the end of a way. -/
def Under (way : Way) (k : Nat) (d : Declaration) : Prop := ∃ v b, d.path = v ++ (k, b) :: way

variable {way : Way} {d : Declaration} {i j k : Nat}

theorem under_stmt (way : Way) (k : Nat) : (Declaration.stmt way k).Under way k := ⟨[], 0, rfl⟩

theorem not_under_param (way : Way) (i k : Nat) : ¬ (Declaration.param i).Under way k := by
  rintro ⟨v, b, h⟩
  cases v <;> cases h

theorem Under.outer (h : d.Under ((k, j) :: way) i) : d.Under way k := by
  obtain ⟨v, b, h⟩ := h
  exact ⟨v ++ [(i, b)], j, by rw [h, List.append_assoc]; rfl⟩

theorem Under.unique (h : d.Under way i) (h' : d.Under way k) : i = k := by
  obtain ⟨v, b, h⟩ := h
  obtain ⟨v', b', h'⟩ := h'
  have hpath : v ++ [(i, b)] ++ way = v' ++ [(k, b')] ++ way := by
    rw [List.append_assoc, List.append_assoc]
    exact h.symm.trans h'
  have hlast := (List.append_inj' (List.append_cancel_right hpath) rfl).2
  exact congrArg Prod.fst (List.cons.inj hlast).1

end Declaration

namespace Point

def declared (P : Point) : List Declaration := P.blocks.flatten.map Prod.snd

/-- The declaration is in scope or in the set. -/
def Knows (P : Point) (d : Declaration) : Prop := d ∈ P.assigned ∨ d ∈ P.declared

variable {P : Point} {x : String} {d e : Declaration}

theorem mem_declared_of_find? (h : P.find? x = some d) : d ∈ P.declared := by
  obtain ⟨b, hb, hd⟩ := List.exists_of_findSome?_eq_some h
  obtain ⟨pre, post, rfl, -⟩ := List.lookup_eq_some_iff.mp hd
  exact List.mem_map.mpr ⟨(x, d), List.mem_flatten.mpr ⟨_, hb, by simp⟩, rfl⟩

theorem blocks_assign (P : Point) (x : String) : (P.assign x).blocks = P.blocks := by
  unfold assign
  split <;> rfl

theorem assigned_subset_assign (P : Point) (x : String) : P.assigned ⊆ (P.assign x).assigned := by
  unfold assign
  split
  · exact Finset.subset_insert ..
  · exact subset_rfl

theorem knows_assign (h : (P.assign x).Knows d) : P.Knows d := by
  unfold assign at h
  split at h
  · next e he =>
    rcases h with h | h
    · rcases Finset.mem_insert.mp h with rfl | h
      · exact .inr (mem_declared_of_find? he)
      · exact .inl h
    · exact .inr h
  · exact h

theorem tail_blocks_declare (P : Point) (x : String) (d : Declaration) (isInitialized : Bool) :
    (P.declare x d isInitialized).blocks.tail = P.blocks.tail := by
  unfold declare
  split
  · rfl
  · next hb =>
    split
    · rfl
    · rw [hb]
      rfl

theorem assigned_subset_declare (P : Point) (x : String) (d : Declaration) (isInitialized : Bool) :
    P.assigned ⊆ (P.declare x d isInitialized).assigned := by
  unfold declare
  split
  · exact subset_rfl
  · split
    · exact subset_rfl
    · dsimp only
      split
      · exact Finset.subset_insert ..
      · exact subset_rfl

theorem knows_declare {isInitialized : Bool} (h : (P.declare x d isInitialized).Knows e) :
    P.Knows e ∨ e = d := by
  unfold declare at h
  split at h
  · exact .inl h
  · next b rest hb =>
    split at h
    · exact .inl h
    · rcases h with h | h
      · dsimp only at h
        split at h
        · exact (Finset.mem_insert.mp h).symm.imp_left .inl
        · exact .inl (.inl h)
      · rcases List.mem_cons.mp h with rfl | h
        · exact .inr rfl
        · refine .inl (.inr ?_)
          rw [declared, hb]
          exact h

theorem nodup_declare (h : P.declared.Nodup) (hd : d ∉ P.declared) (isInitialized : Bool) :
    (P.declare x d isInitialized).declared.Nodup := by
  unfold declare
  split
  · exact h
  · next b rest hb =>
    split
    · exact h
    · rw [declared, hb] at h hd
      exact List.nodup_cons.mpr ⟨hd, h⟩

end Point

/-! ### What a statement adds -/

theorem tail_blocks_flow (way : Way) (k : Nat) (P : Point) (s : Stmt) :
    (s.flow way k P).blocks.tail = P.blocks.tail := by
  cases s with
  | decl _ x _ _ => exact P.tail_blocks_declare x _ _
  | assign _ x _ _ => exact congrArg List.tail (P.blocks_assign x)
  | _ => rw [Stmt.flow]

theorem tail_blocks_stmtsFlow (way : Way) :
    ∀ (ss : List Stmt) (k : Nat) (P : Point),
      (stmtsFlow way k P ss).blocks.tail = P.blocks.tail
  | [], _, _ => rfl
  | s :: rest, k, P => by
    rw [stmtsFlow, tail_blocks_stmtsFlow way rest, tail_blocks_flow]

mutual

theorem assigned_subset_flow (way : Way) (k : Nat) (P : Point) :
    ∀ s : Stmt, P.assigned ⊆ (s.flow way k P).assigned
  | .decl _ x _ _ => P.assigned_subset_declare x _ _
  | .assign _ x _ _ => P.assigned_subset_assign x
  | .ifElse _ _ _ _ => Finset.subset_union_left
  | .doWhile _ body _ | .block _ body => assigned_subset_stmtsFlow ((k, 0) :: way) body 0 P.inner
  | .expr _ _ | .assignElement _ _ _ _ _ | .ifThen _ _ _ | .while _ _ _ | .ret _ _ => subset_rfl

theorem assigned_subset_stmtsFlow (way : Way) :
    ∀ (ss : List Stmt) (k : Nat) (P : Point), P.assigned ⊆ (stmtsFlow way k P ss).assigned
  | [], _, _ => subset_rfl
  | s :: rest, k, P =>
    (assigned_subset_flow way k P s).trans (assigned_subset_stmtsFlow way rest (k + 1) _)

end

/-- What stands in a body of a statement stands in the statement. -/
theorem knows_outer {way : Way} {k j : Nat} {P : Point} {d : Declaration}
    (h : P.inner.Knows d ∨ ∃ i, 0 ≤ i ∧ d.Under ((k, j) :: way) i) : P.Knows d ∨ d.Under way k :=
  h.imp_right fun ⟨_, _, hunder⟩ => hunder.outer

mutual

theorem knows_flow (way : Way) (k : Nat) (P : Point) {d : Declaration} :
    ∀ s : Stmt, (s.flow way k P).Knows d → P.Knows d ∨ d.Under way k
  | .decl _ _ _ _, h => by
    rcases Point.knows_declare h with h | rfl
    · exact .inl h
    · exact .inr (Declaration.under_stmt way k)
  | .assign _ _ _ _, h => .inl (Point.knows_assign h)
  | .ifElse _ _ body _, h => by
    rcases h with h | h
    · rcases Finset.mem_union.mp h with h | h
      · exact .inl (.inl h)
      · exact knows_outer (knows_stmtsFlow ((k, 0) :: way) body 0 P.inner
          (.inl (Finset.mem_inter.mp h).1))
    · exact .inl (.inr h)
  | .doWhile _ body _, h | .block _ body, h => by
    rcases h with h | h
    · exact knows_outer (knows_stmtsFlow ((k, 0) :: way) body 0 P.inner (.inl h))
    · exact .inl (.inr h)
  | .expr _ _, h | .assignElement _ _ _ _ _, h | .ifThen _ _ _, h | .while _ _ _, h
  | .ret _ _, h => .inl h

theorem knows_stmtsFlow (way : Way) {d : Declaration} :
    ∀ (ss : List Stmt) (k : Nat) (P : Point), (stmtsFlow way k P ss).Knows d →
      P.Knows d ∨ ∃ i, k ≤ i ∧ d.Under way i
  | [], _, _, h => .inl h
  | s :: rest, k, P, h => by
    rcases knows_stmtsFlow way rest (k + 1) (s.flow way k P) h with h | ⟨i, hi, h⟩
    · exact (knows_flow way k P s h).imp_right fun h => ⟨k, Nat.le_refl k, h⟩
    · exact .inr ⟨i, Nat.le_of_succ_le hi, h⟩

end

/-- The declarations in scope are distinct, and those of the statements from `k` on in the block at
the end of a way are still to come. -/
structure Point.Ahead (way : Way) (k : Nat) (P : Point) : Prop where
  nodup : P.declared.Nodup
  new : ∀ d, P.Knows d → ∀ i, k ≤ i → ¬ d.Under way i

namespace Point.Ahead

variable {way : Way} {k : Nat} {P : Point}

theorem not_knows (h : P.Ahead way k) : ¬ P.Knows (.stmt way k) :=
  fun hknows => h.new _ hknows k (Nat.le_refl k) (Declaration.under_stmt way k)

theorem inner (h : P.Ahead way k) (j : Nat) : P.inner.Ahead ((k, j) :: way) 0 :=
  ⟨h.nodup, fun d hd _ _ hunder => h.new d hd k (Nat.le_refl k) hunder.outer⟩

theorem flow (h : P.Ahead way k) (s : Stmt) : (s.flow way k P).Ahead way (k + 1) := by
  refine ⟨?_, fun d hd i hi hunder => ?_⟩
  · cases s with
    | decl _ x _ init =>
      exact nodup_declare h.nodup (fun hmem => h.not_knows (.inr hmem)) init.isSome
    | assign _ x _ _ =>
      rw [Stmt.flow, declared, blocks_assign]
      exact h.nodup
    | _ => exact h.nodup
  · rcases knows_flow way k P s hd with hknows | hk
    · exact h.new d hknows i (by omega) hunder
    · have := hk.unique hunder
      omega

end Point.Ahead

/-- The declarations that are known are parameters with numbers below `k`. -/
def Point.OnlyParams (k : Nat) (P : Point) : Prop := ∀ d, P.Knows d → ∃ i, i < k ∧ d = .param i

namespace Point.OnlyParams

variable {k : Nat} {P : Point}

theorem not_knows (h : P.OnlyParams k) : ¬ P.Knows (.param k) := by
  intro hknows
  obtain ⟨i, hi, heq⟩ := h _ hknows
  cases heq
  exact Nat.lt_irrefl k hi

theorem declare (h : P.OnlyParams k) (x : String) (isInitialized : Bool) :
    (P.declare x (.param k) isInitialized).OnlyParams (k + 1) := by
  intro d hd
  rcases knows_declare hd with hd | rfl
  · obtain ⟨i, hi, rfl⟩ := h d hd
    exact ⟨i, Nat.lt_succ_of_lt hi, rfl⟩
  · exact ⟨k, Nat.lt_succ_self k, rfl⟩

end Point.OnlyParams

theorem Point.onlyParams_empty : OnlyParams 0 ⟨[[]], ∅⟩ := by
  rintro d (hd | hd) <;> cases hd

theorem Point.withParams_ahead :
    ∀ (params : List Param) {k : Nat} {P : Point}, P.declared.Nodup → P.OnlyParams k →
      (P.withParams k params).Ahead [] 0
  | [], _, _, hnodup, h => by
    refine ⟨hnodup, fun d hd i _ hunder => ?_⟩
    obtain ⟨j, -, rfl⟩ := h d hd
    exact Declaration.not_under_param [] j i hunder
  | p :: ps, _, _, hnodup, h =>
    withParams_ahead ps (nodup_declare hnodup (fun hmem => h.not_knows (.inr hmem)) true)
      (h.declare p.name true)

theorem Point.entry_ahead (params : List Param) : (entry params).Ahead [] 0 :=
  withParams_ahead params List.nodup_nil onlyParams_empty

end Quill
