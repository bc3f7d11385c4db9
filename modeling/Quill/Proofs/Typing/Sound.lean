import Quill.Proofs.Scope.Tracks
import Quill.Proofs.Typing.Rules
import Quill.Typing.Stmt

/-! # Checking finds what the typing rules ask for

A check that leaves no report has annotated the tree as the typing rules say.  Reports are only
ever added, so a log without reports at the end was without reports all along, and each check that
was made on the way has succeeded.

* `infer_sound`: an expression that is checked without a report is well typed.
* `checkStmt_sound`: checking a statement, with reports or without, leaves a table that tracks the
  context after the statement; without reports the statement is well typed. -/

namespace Quill.Typing

open Report (Log Finding)
open Scope (Table)

/-- There is no report. -/
def Clean (log : Log) : Prop := log.size = 0

theorem not_clean_addFinding (file : Option String) (log : Log) (f : Finding) (span : Span) :
    ¬ Clean (addFinding file log f span) := by
  unfold Clean addFinding
  rw [Report.Log.size_add]
  omega

/-! ### Functions -/

/-- What a call needs to know of a function of a table. -/
def signatureIn (f : Scope.Function) : Signature :=
  ⟨f.arguments.map (·.ty), f.returnType, f.isBuiltin⟩

/-- The root scope of a table declares the functions of a list, besides the built-in ones. -/
def Offers (t : Table) (fs : List FunctionDecl) : Prop :=
  ∀ name arity,
    (((t.declaredFunctions Table.root).find? (·.hasSignature name arity)).or
      (t.builtin? name arity)).map signatureIn = signature? fs name arity

theorem declaredFunctions_eq_nil {t : Table} {s : Nat} {e : Scope.Entry}
    (he : t.scopes[s]? = some e) (hf : e.functions = #[]) : t.declaredFunctions s = [] := by
  unfold Table.declaredFunctions
  rw [he]
  simp [hf]

theorem Tracks.resolveDeclared? {t : Table} (hf : t.Formed) {here s : Nat} {Γ : Ctx}
    (h : Tracks t here s Γ) (name : String) (arity : Nat) :
    t.resolveDeclared? s name arity =
      (t.declaredFunctions Table.root).find? (·.hasSignature name arity) := by
  induction h with
  | @root e he hp hids =>
    have hpar : t.parent? Table.root = none := by rw [Table.parent?, he]; exact hp
    unfold Table.resolveDeclared?
    rw [Table.ancestors_of_none hpar, List.findSome?_cons]
    cases (t.declaredFunctions Table.root).find? (·.hasSignature name arity) <;> rfl
  | @inside s p e b Γ he hp hfun _ _ _ ih =>
    have hpar : t.parent? s = some p := by rw [Table.parent?, he]; exact hp
    rw [← ih]
    unfold Table.resolveDeclared?
    rw [hf.ancestors_of_parent hpar, List.findSome?_cons, declaredFunctions_eq_nil he hfun]
    rfl

theorem Offers.resolveFunction? {t : Table} {fs : List FunctionDecl} (ho : Offers t fs)
    (hf : t.Formed) {here s : Nat} {Γ : Ctx} (h : Tracks t here s Γ) (name : String)
    (arity : Nat) : (t.resolveFunction? s name arity).map signatureIn = signature? fs name arity := by
  unfold Table.resolveFunction?
  rw [h.resolveDeclared? hf]
  exact ho name arity

theorem Offers.kept {t t' : Table} {fs : List FunctionDecl} {n : Nat} (ho : Offers t fs)
    (hk : Table.Kept n t t') (hn : 0 < n) (ht : 0 < t.scopes.size) : Offers t' fs := by
  obtain ⟨e', he', _, _, hfun⟩ := hk.scope Table.root hn _ (Array.getElem?_eq_getElem ht)
  have hdecl : t'.declaredFunctions Table.root = t.declaredFunctions Table.root := by
    unfold Table.declaredFunctions
    rw [he', Array.getElem?_eq_getElem (show Table.root < t.scopes.size from ht)]
    simp only [Option.map_some, Option.getD_some, hfun, hk.functions]
    rfl
  intro name arity
  rw [hdecl, Table.builtin?, Table.builtinList, hk.functions]
  exact ho name arity

/-! ### Expressions -/

/-- A scope of a table sees the variables of a context and the functions of a list. -/
structure Stands (t : Table) (scope : Nat) (fs : List FunctionDecl) (Γ : Ctx) : Prop where
  formed : t.Formed
  tracks : Tracks t scope scope Γ
  offers : Offers t fs

section

variable {s : Sight} {fs : List FunctionDecl} {Γ : Ctx} {log : Log} {span : Span}

theorem Sight.not_clean_add (s : Sight) (log : Log) (f : Finding) (span : Span) :
    ¬ Clean (s.add log f span) := not_clean_addFinding s.file log f span

theorem Stands.read (h : Stands s.table s.scope fs Γ) {x : String}
    (hc : Clean (s.read log x span).2) : Clean log ∧ ReadOk Γ x (s.read log x span).1 := by
  have hrel := h.tracks.resolveIdentifier? h.formed x
  unfold Sight.read at hc ⊢
  unfold ReadOk
  generalize s.table.resolveIdentifier? s.scope x = found, Γ.find? x = known at hrel hc ⊢
  cases hrel with
  | none => exact absurd hc (s.not_clean_add _ _ _)
  | @some i v hr =>
    dsimp only at hc ⊢
    split
    · next ha =>
      rw [if_pos ha] at hc
      exact ⟨hc, v, rfl, hr.2.symm.trans ha, hr.1.symm⟩
    · next ha =>
      rw [if_neg ha] at hc
      exact absurd hc (s.not_clean_add _ _ _)

theorem Sight.combine_clean {op : String} {lhs rhs unknown : Ty} {result : Option Ty}
    (hc : Clean (s.combine log span op lhs rhs result unknown).2) :
    Clean log ∧ Combined lhs rhs result unknown
      (s.combine log span op lhs rhs result unknown).1 := by
  unfold Sight.combine at hc ⊢
  unfold Combined
  split
  · next hu =>
    rw [if_pos hu] at hc
    exact ⟨hc, rfl⟩
  · next hu =>
    rw [if_neg hu] at hc
    cases result with
    | none => exact absurd hc (s.not_clean_add _ _ _)
    | some t => exact ⟨hc, rfl⟩

theorem Sight.negate_clean {t : Ty} (hc : Clean (s.negate log span t).2) :
    Clean log ∧ (t = .boolean ∨ t = .undefined) ∧ (s.negate log span t).1 = .boolean := by
  unfold Sight.negate at hc ⊢
  split
  · next ht =>
    rw [if_pos ht] at hc
    exact ⟨hc, ht, rfl⟩
  · next ht =>
    rw [if_neg ht] at hc
    exact absurd hc (s.not_clean_add _ _ _)

theorem Sight.expectInteger_clean {what : String} {e : Expr}
    (hc : Clean (s.expectInteger log what e)) : Clean log ∧ IndexOk e := by
  unfold Sight.expectInteger at hc
  split at hc
  · next ht => exact ⟨hc, ht⟩
  · exact absurd hc (s.not_clean_add _ _ _)

theorem Sight.element_clean {a : String} {base : Ty} {count : Nat}
    (hc : Clean (s.element log span a base count).2) :
    Clean log ∧ ElementOk base count (s.element log span a base count).1 := by
  unfold Sight.element at hc ⊢
  cases base with
  | undefined => exact ⟨hc, rfl⟩
  | array element rank =>
    dsimp only at hc ⊢
    split
    · next hr =>
      rw [if_pos hr] at hc
      exact ⟨hc, hr, rfl⟩
    · next hr =>
      rw [if_neg hr] at hc
      exact absurd hc (s.not_clean_add _ _ _)
  | string =>
    dsimp only at hc ⊢
    split
    · next hr =>
      rw [if_pos hr] at hc
      exact ⟨hc, hr.2, rfl⟩
    · next hr =>
      rw [if_neg hr] at hc
      exact absurd hc (s.not_clean_add _ _ _)
  | _ =>
    dsimp only at hc
    rw [if_neg (fun h => nomatch h.1)] at hc
    exact absurd hc (s.not_clean_add _ _ _)

theorem Sight.array_clean {element : Element} {count : Nat}
    (hc : Clean (s.array log span element count).2) :
    Clean log ∧ (1 ≤ count ∧ count ≤ Ty.maxRank) ∧
      (s.array log span element count).1 = .array element count := by
  unfold Sight.array at hc ⊢
  split
  · next hr =>
    rw [if_pos hr] at hc
    exact ⟨hc, hr, rfl⟩
  · next hr =>
    rw [if_neg hr] at hc
    exact absurd hc (s.not_clean_add _ _ _)

theorem Sight.arguments_clean {name : String} {isBuiltin : Bool} :
    ∀ {args : List Expr} {params : List Scope.Argument} {log : Log} {i : Nat},
      args.length = params.length → Clean (s.arguments name isBuiltin log i args params) →
        Clean log ∧ List.Forall₂ (ArgumentOk name isBuiltin) args (params.map (·.ty))
  | [], [], _, _, _, hc => ⟨hc, .nil⟩
  | [], _ :: _, _, _, hlen, _ => by cases hlen
  | _ :: _, [], _, _, hlen, _ => by cases hlen
  | arg :: args, param :: params, log, i, hlen, hc => by
    unfold Sight.arguments at hc
    obtain ⟨hlog, hrest⟩ := Sight.arguments_clean (Nat.succ.inj hlen) hc
    split at hlog
    · exact absurd hlog (s.not_clean_add _ _ _)
    · next hassign =>
      split at hlog
      · exact absurd hlog (s.not_clean_add _ _ _)
      · next haccepts =>
        refine ⟨hlog, .cons ⟨by simpa using hassign, fun hb hv => ?_⟩ hrest⟩
        simpa [hb, hv] using haccepts

theorem Stands.call (h : Stands s.table s.scope fs Γ) {name : String} {args : List Expr}
    (hc : Clean (s.call log span name args).2) :
    Clean log ∧ CallOk fs name args (s.call log span name args).1 := by
  have hsig := h.offers.resolveFunction? h.formed h.tracks name args.length
  unfold Sight.call at hc ⊢
  cases hr : s.table.resolveFunction? s.scope name args.length with
  | none =>
    rw [hr] at hc
    dsimp only at hc
    split at hc <;> exact absurd hc (s.not_clean_add _ _ _)
  | some f =>
    rw [hr] at hc hsig
    have hlen : args.length = f.arguments.length := by
      unfold Table.resolveFunction? at hr
      rcases Option.or_eq_some_iff.mp hr with hd | ⟨_, hb⟩
      · rw [h.tracks.resolveDeclared? h.formed] at hd
        have hsig := List.find?_some hd
        unfold Scope.Function.hasSignature at hsig
        exact (of_decide_eq_true hsig).2.symm
      · have hsig := List.find?_some hb
        unfold Scope.Function.hasSignature at hsig
        exact (of_decide_eq_true hsig).2.symm
    obtain ⟨hlog, hargs⟩ := Sight.arguments_clean hlen hc
    exact ⟨hlog, signatureIn f, hsig.symm, rfl, hargs⟩

/-- Expressions that are already annotated stand before the others. -/
theorem inferAll_done (s : Sight) (integers : Option String) (es : List Expr) :
    ∀ (log : Log) (done : List Expr), inferAll s integers log done es =
      (done.reverse ++ (inferAll s integers log [] es).1, (inferAll s integers log [] es).2) := by
  induction es with
  | nil => simp [inferAll]
  | cons e es ih =>
    intro log done
    unfold inferAll
    dsimp only
    rw [ih _ (_ :: done), ih _ [_]]
    simp

theorem inferAll_cons (s : Sight) (integers : Option String) (log : Log) (e : Expr)
    (es : List Expr) : inferAll s integers log [] (e :: es) =
      let head := infer s log e
      let log := match integers with
        | some what => s.expectInteger head.2 what head.1
        | none => head.2
      (head.1 :: (inferAll s integers log [] es).1, (inferAll s integers log [] es).2) := by
  rw [inferAll]
  dsimp only
  rw [inferAll_done]
  rfl

mutual

/-- An expression that is checked without a report is well typed. -/
theorem infer_sound (h : Stands s.table s.scope fs Γ) :
    ∀ {log : Log} (e : Expr), Clean (infer s log e).2 →
      Clean log ∧ ExprOk fs Γ (infer s log e).1
  | _, .literal n v, hc => ⟨hc, rfl⟩
  | _, .name n x, hc => h.read hc
  | _, .arith n op l r, hc => by
    obtain ⟨hr, ht⟩ := Sight.combine_clean hc
    obtain ⟨hl, hrok⟩ := infer_sound h r hr
    obtain ⟨hlog, hlok⟩ := infer_sound h l hl
    exact ⟨hlog, hlok, hrok, ht⟩
  | _, .compare n op l r, hc => by
    obtain ⟨hr, ht⟩ := Sight.combine_clean hc
    obtain ⟨hl, hrok⟩ := infer_sound h r hr
    obtain ⟨hlog, hlok⟩ := infer_sound h l hl
    exact ⟨hlog, hlok, hrok, ht⟩
  | _, .logic n op l r, hc => by
    obtain ⟨hr, ht⟩ := Sight.combine_clean hc
    obtain ⟨hl, hrok⟩ := infer_sound h r hr
    obtain ⟨hlog, hlok⟩ := infer_sound h l hl
    exact ⟨hlog, hlok, hrok, ht⟩
  | _, .not n x, hc => by
    obtain ⟨hx, ht⟩ := Sight.negate_clean hc
    obtain ⟨hlog, hxok⟩ := infer_sound h x hx
    exact ⟨hlog, hxok, ht⟩
  | _, .index n a is, hc => by
    obtain ⟨his, ht⟩ := Sight.element_clean hc
    obtain ⟨ha, hok, hint⟩ := inferAll_sound h is his
    obtain ⟨hlog, hread⟩ := h.read ha
    exact ⟨hlog, ⟨_, hread, ht⟩, hok, hint rfl⟩
  | _, .call n f args, hc => by
    obtain ⟨hargs, ht⟩ := h.call hc
    obtain ⟨hlog, hok, _⟩ := inferAll_sound h args hargs
    exact ⟨hlog, hok, ht⟩
  | _, .newArray n e dims, hc => by
    obtain ⟨hdims, ht⟩ := Sight.array_clean hc
    obtain ⟨hlog, hok, hint⟩ := inferAll_sound h dims hdims
    exact ⟨hlog, hok, hint rfl, ht⟩

theorem inferAll_sound (h : Stands s.table s.scope fs Γ) :
    ∀ {log : Log} {integers : Option String} (es : List Expr),
      Clean (inferAll s integers log [] es).2 →
        Clean log ∧ ExprsOk fs Γ (inferAll s integers log [] es).1 ∧
          (integers.isSome = true → ∀ e ∈ (inferAll s integers log [] es).1, IndexOk e)
  | _, _, [], hc => ⟨hc, trivial, fun _ _ he => nomatch he⟩
  | log, integers, e :: es, hc => by
    rw [inferAll_cons] at hc ⊢
    obtain ⟨hrest, hok, hint⟩ := inferAll_sound h es hc
    cases integers with
    | none =>
      obtain ⟨hlog, heok⟩ := infer_sound h e hrest
      exact ⟨hlog, ⟨heok, hok⟩, fun h => nomatch h⟩
    | some what =>
      obtain ⟨he, hindex⟩ := Sight.expectInteger_clean hrest
      obtain ⟨hlog, heok⟩ := infer_sound h e he
      exact ⟨hlog, ⟨heok, hok⟩, fun _ => List.forall_mem_cons.mpr ⟨hindex, hint rfl⟩⟩

end

end

/-! ### Steps of the table -/

section

variable {t t' : Table} {scope : Nat} {fs : List FunctionDecl} {b : Block} {Γ Δ : Ctx}

theorem Tracks.pos {here : Nat} (hf : t.Formed) (h : Tracks t here scope (b :: Γ)) :
    0 < scope := by
  cases h with
  | @inside _ p e _ _ he hp =>
    have hlt := hf.parent_lt scope p (by rw [Table.parent?, he]; exact hp)
    omega

/-- The functions stay, so only the variables have to be looked at. -/
theorem Stands.advance (h : Stands t scope fs (b :: Γ)) (hk : Table.Kept scope t t')
    (hf : t'.Formed) (ht : Tracks t' scope scope Δ) : Stands t' scope fs Δ := by
  have hlt := h.tracks.lt_size
  exact ⟨hf, ht, h.offers.kept hk (h.tracks.pos h.formed) (by omega)⟩

theorem Stands.child (h : Stands t scope fs Γ) :
    Stands (t.child scope).1 t.scopes.size fs ([] :: Γ) := by
  have hlt := h.tracks.lt_size
  refine ⟨h.formed.child hlt, h.tracks.child h.formed, ?_⟩
  exact h.offers.kept (Table.kept_child t scope) (by omega) (by omega)

/-- Work in a new scope leaves the scope around it where it stood. -/
theorem Stands.of_child (h : Stands t scope fs Γ) (hf : t'.Formed)
    (hk : Table.Kept t.scopes.size (t.child scope).1 t') :
    Table.Kept t.scopes.size t t' ∧ Stands t' scope fs Γ ∧
      t'.parent? t.scopes.size = some scope := by
  have hlt := h.tracks.lt_size
  have hall : Table.Kept t.scopes.size t t' := (Table.kept_child t scope).trans hk
  refine ⟨hall, ⟨hf, h.tracks.kept h.formed hall (Nat.le_refl _) hlt hlt, ?_⟩, ?_⟩
  · exact h.offers.kept hall (by omega) (by omega)
  · rw [hk.parent? _ (by rw [Table.size_scopes_child]; omega), Table.parent?_child_new]

theorem Stands.promote {inner : Nat} {b' : Block} (h : Stands t inner fs (b' :: b :: Γ))
    (hp : t.parent? inner = some scope) :
    Stands (t.promote inner scope) scope fs (b :: Γ) ∧
      Table.Kept scope t (t.promote inner scope) := by
  have hlt := h.tracks.lt_size
  have hps : scope < inner := h.formed.parent_lt inner scope hp
  have hf : (t.promote inner scope).Formed := h.formed.markAllAssigned _ (by omega)
  have ht : Tracks (t.promote inner scope) scope scope (b :: Γ) := h.tracks.promote h.formed hp
  have hk := Table.kept_markAllAssigned t (t.assignedIn inner) scope
  exact ⟨⟨hf, ht, h.offers.kept hk (ht.pos hf) (by omega)⟩, hk⟩

theorem Stands.promoteBoth {one two : Nat} (h : Stands t scope fs (b :: Γ)) {b₁ b₂ : Block}
    {Γ₁ Γ₂ : Ctx} (h₁ : Tracks t one one (b₁ :: Γ₁)) (h₂ : Tracks t two two (b₂ :: Γ₂))
    (hp₁ : t.parent? one = some scope) (hp₂ : t.parent? two = some scope) :
    Stands (t.promoteBoth one two scope) scope fs (Ctx.both Γ₁ Γ₂) ∧
      Table.Kept scope t (t.promoteBoth one two scope) := by
  have hlt := h.tracks.lt_size
  have hf : (t.promoteBoth one two scope).Formed := h.formed.markAllAssigned _ hlt
  have hk : Table.Kept scope t (t.promoteBoth one two scope) :=
    Table.kept_markAllAssigned t _ scope
  have ht := Tracks.both h.formed hp₁ hp₂ (Nat.le_refl _) (h₁.outer hp₁) (h₂.outer hp₂)
  exact ⟨h.advance hk hf ht, hk⟩

/-- A name that a scope cannot declare is one of its innermost block. -/
theorem Stands.declare_none {x : String} {ty : Ty} (h : Stands t scope fs (b :: Γ))
    (hd : t.declareIdentifier? scope x ty = none) : (b.lookup x).isSome = true := by
  cases h.tracks with
  | @inside _ p e _ _ he hp _ _ hrec =>
    have hrel := lookup_records hrec x
    unfold Table.declareIdentifier? at hd
    have hdecl : t.declared? scope x = e.identifiers.lookup x := by rw [Table.declared?, he]; rfl
    rw [hdecl] at hd
    generalize e.identifiers.lookup x = found, b.lookup x = known at hrel hd
    cases hrel with
    | none => cases hd
    | some _ => rfl

/-- A declaration adds a variable that is not yet assigned; an initializer assigns it. -/
theorem Stands.declare_some {x : String} {ty : Ty} {id : Nat} (h : Stands t scope fs (b :: Γ))
    (hd : t.declareIdentifier? scope x ty = some (t', id)) :
    b.lookup x = none ∧
      (Stands t' scope fs (((x, ⟨ty, false⟩) :: b) :: Γ) ∧ Table.Kept scope t t') ∧
      Stands (t'.markAssigned id scope) scope fs (((x, ⟨ty, true⟩) :: b) :: Γ) ∧
        Table.Kept scope t (t'.markAssigned id scope) := by
  have hlt := h.tracks.lt_size
  have hf' := h.formed.declareIdentifier hlt hd
  have hk := Table.kept_declareIdentifier hd
  have ht' := h.tracks.declare h.formed hd
  have hlt' := ht'.lt_size
  have hmark := hk.trans (Table.kept_markAssigned t' id scope)
  obtain ⟨hnone, hid, heq⟩ := Table.declareIdentifier?_eq_some hd
  have hfound : (t'.ancestors scope).findSome? (t'.declared? · x) = some id := by
    have hhead : t'.ancestors scope = scope :: (t'.ancestors scope).tail := by
      unfold Table.ancestors Table.ancestorsUpTo
      rfl
    have hdecl : t'.declared? scope x = some id := by
      rw [heq, Table.declared?, Array.getElem?_modify, if_pos rfl,
        Array.getElem?_eq_getElem hlt]
      simp
    rw [hhead, List.findSome?_cons, hdecl]
  have hassign := ht'.assign hf' hfound
  rw [Ctx.assign, List.lookup_cons, beq_self_eq_true] at hassign
  simp only [Option.isSome_some, if_true, Block.assign, beq_self_eq_true] at hassign
  refine ⟨?_, ⟨h.advance hk hf' ht', hk⟩, h.advance hmark (hf'.markAssigned hlt') hassign, hmark⟩
  cases h.tracks with
  | @inside _ p e _ _ he hp _ _ hrec =>
    have hrel := lookup_records hrec x
    rw [Table.declared?, he] at hnone
    have hnone' : e.identifiers.lookup x = none := hnone
    rw [hnone'] at hrel
    generalize b.lookup x = known at hrel ⊢
    cases hrel
    rfl

theorem Stands.assign {x : String} {i : Scope.Identifier} (h : Stands t scope fs (b :: Γ))
    (hx : t.resolveIdentifier? scope x = some i) :
    Stands (t.markAssigned i.id scope) scope fs (Ctx.assign x (b :: Γ)) ∧
      Table.Kept scope t (t.markAssigned i.id scope) := by
  have hlt := h.tracks.lt_size
  have hk := Table.kept_markAssigned t i.id scope
  obtain ⟨id, hid, hi⟩ := Option.bind_eq_some_iff.mp hx
  have hfound : (t.ancestors scope).findSome? (t.declared? · x) = some i.id := by
    rw [h.formed.id_eq id i hi]
    exact hid
  exact ⟨h.advance hk (h.formed.markAssigned hlt) (h.tracks.assign h.formed hfound), hk⟩

end

/-! ### Steps of a statement -/

theorem State.not_clean_add (st : State) (c : Setting) (f : Finding) (span : Span) :
    ¬ Clean (st.add c f span).log := not_clean_addFinding c.file st.log f span

section

variable {fs : List FunctionDecl} {Γ : Ctx} {c : Setting} {scope : Nat} {st : State}

theorem Stands.infer (h : Stands st.table scope fs Γ) {e : Expr}
    (hc : Clean (st.infer c scope e).2.log) :
    Clean st.log ∧ ExprOk fs Γ (st.infer c scope e).1 := by
  have hs : Stands (Sight.mk st.table scope c.file).table (Sight.mk st.table scope c.file).scope
      fs Γ := h
  exact infer_sound hs e hc

theorem State.table_expectAssignable (st : State) (c : Setting) (value : Expr) (target : Ty)
    (context : String) : (st.expectAssignable c value target context).table = st.table := by
  unfold State.expectAssignable
  split <;> rfl

theorem State.expectAssignable_clean {value : Expr} {target : Ty} {context : String}
    (hc : Clean (st.expectAssignable c value target context).log) :
    Clean st.log ∧ (target = .undefined ∨ value.ty.assignableTo target = true) := by
  unfold State.expectAssignable at hc
  split at hc
  · next h => exact ⟨hc, by simpa using h⟩
  · exact absurd hc (st.not_clean_add c _ _)

theorem State.table_condition (st : State) (c : Setting) (scope : Nat) (e : Expr) :
    (st.condition c scope e).2.table = st.table := by
  unfold State.condition
  dsimp only
  split <;> rfl

theorem Stands.condition (h : Stands st.table scope fs Γ) {e : Expr}
    (hc : Clean (st.condition c scope e).2.log) :
    Clean st.log ∧ ConditionOk fs Γ (st.condition c scope e).1 := by
  unfold State.condition at hc ⊢
  dsimp only at hc ⊢
  split
  · next hb =>
    rw [if_pos hb] at hc
    obtain ⟨hlog, hok⟩ := h.infer hc
    exact ⟨hlog, hok, hb⟩
  · next hb =>
    rw [if_neg hb] at hc
    exact absurd hc (State.not_clean_add _ c _ _)

/-- What checking a statement leaves: a table that tracks the context after it, and, if there is
no report, a well-typed statement. -/
structure StmtSound (fs : List FunctionDecl) (c : Setting) (scope : Nat) (Γ : Ctx) (st : State)
    (r : Stmt × Bool × State) : Prop where
  stands : Stands r.2.2.table scope fs (after Γ r.1)
  kept : Table.Kept scope st.table r.2.2.table
  returns : r.2.1 = r.1.returns
  clean : Clean r.2.2.log → Clean st.log
  ok : Γ.Valued → Clean r.2.2.log → StmtOk fs c.returnType Γ r.1

/-- What checking a list of statements leaves. -/
structure StmtsSound (fs : List FunctionDecl) (c : Setting) (scope : Nat) (Γ : Ctx) (st : State)
    (r : List Stmt × Bool × State) : Prop where
  stands : Stands r.2.2.table scope fs (afterAll Γ r.1)
  kept : Table.Kept scope st.table r.2.2.table
  returns : r.2.1 = anyReturns r.1
  clean : Clean r.2.2.log → Clean st.log
  ok : Γ.Valued → Clean r.2.2.log → StmtsOk fs c.returnType Γ r.1

theorem declare_sound {b : Block} (span : Span) (x : String) (ty : Ty) (init : Option Expr)
    (h : Stands st.table scope fs (b :: Γ)) :
    StmtSound fs c scope (b :: Γ) st (checkStmt c scope st (.decl span x ty init)) := by
  have htype : ∀ st₁, (if ty.isVariable = true then st
      else st.add c (.invalidVariableType x ty.name) span) = st₁ →
        st₁.table = st.table ∧ (Clean st₁.log → Clean st.log ∧ ty.isValue = true) := by
    rintro st₁ rfl
    split
    · next hv => exact ⟨rfl, fun hc => ⟨hc, hv⟩⟩
    · exact ⟨rfl, fun hc => absurd hc (st.not_clean_add c _ _)⟩
  unfold checkStmt State.declare
  dsimp only
  generalize hst₁ : (if ty.isVariable = true then st
      else st.add c (.invalidVariableType x ty.name) span) = st₁
  obtain ⟨htab₁, hlog₁⟩ := htype st₁ hst₁
  have h₁ : Stands st₁.table scope fs (b :: Γ) := htab₁ ▸ h
  cases init with
  | none =>
    dsimp only
    cases hd : st₁.table.declareIdentifier? scope x ty with
    | none =>
      have hsome := h₁.declare_none hd
      refine ⟨?_, htab₁ ▸ Table.Kept.refl scope _, rfl,
        fun hc => absurd hc (st₁.not_clean_add c _ _),
        fun _ hc => absurd hc (st₁.not_clean_add c _ _)⟩
      simp only [after, Ctx.declare, hsome, if_true]
      exact h₁
    | some r =>
      obtain ⟨t', id⟩ := r
      obtain ⟨hnone, ⟨hs, hk⟩, _⟩ := h₁.declare_some hd
      refine ⟨?_, htab₁ ▸ hk, rfl, fun hc => (hlog₁ hc).1, fun _ hc => ?_⟩
      · simp only [after, Ctx.declare, hnone]
        exact hs
      · refine ⟨(hlog₁ hc).2, ?_, fun e he => nomatch he⟩
        simp [Ctx.isFresh, hnone]
  | some e =>
    dsimp only
    cases hd : st₁.table.declareIdentifier? scope x ty with
    | none =>
      have hsome := h₁.declare_none hd
      have hd' : (st₁.infer c scope e).2.table.declareIdentifier? scope x ty = none := hd
      rw [hd']
      refine ⟨?_, htab₁ ▸ Table.Kept.refl scope _, rfl,
        fun hc => absurd hc (State.not_clean_add _ c _ _),
        fun _ hc => absurd hc (State.not_clean_add _ c _ _)⟩
      simp only [after, Ctx.declare, hsome, if_true]
      exact h₁
    | some r =>
      obtain ⟨t', id⟩ := r
      have hd' : (st₁.infer c scope e).2.table.declareIdentifier? scope x ty = some (t', id) := hd
      rw [hd']
      obtain ⟨hnone, _, hs, hk⟩ := h₁.declare_some hd
      dsimp only
      split
      · next hv =>
        refine ⟨?_, ?_, rfl, fun hc => ?_, fun _ hc => ?_⟩
        · rw [State.table_expectAssignable]
          simp only [after, Ctx.declare, hnone]
          exact hs
        · rw [State.table_expectAssignable]
          exact htab₁ ▸ hk
        · obtain ⟨hinit, _⟩ := State.expectAssignable_clean hc
          exact (hlog₁ (h₁.infer hinit).1).1
        · obtain ⟨hinit, hassign⟩ := State.expectAssignable_clean hc
          obtain ⟨hlog, hok⟩ := h₁.infer hinit
          refine ⟨hv, by simp [Ctx.isFresh, hnone], ?_⟩
          rintro _ ⟨⟩
          refine ⟨hok, hassign.resolve_left ?_⟩
          rintro rfl
          cases hv
      · next hv =>
        refine ⟨?_, htab₁ ▸ hk, rfl, fun hc => ?_, fun _ hc => ?_⟩
        · simp only [after, Ctx.declare, hnone]
          exact hs
        · exact (hlog₁ (h₁.infer hc).1).1
        · exact absurd (hlog₁ (h₁.infer hc).1).2 hv

theorem assign_sound {b : Block} (span : Span) (x : String) (target : Span) (value : Expr)
    (h : Stands st.table scope fs (b :: Γ)) :
    StmtSound fs c scope (b :: Γ) st (checkStmt c scope st (.assign span x target value)) := by
  unfold checkStmt State.assign
  dsimp only
  have hrel := h.tracks.resolveIdentifier? h.formed x
  have hsame : (st.infer c scope value).2.table = st.table := rfl
  rw [hsame]
  cases hr : st.table.resolveIdentifier? scope x with
  | none =>
    have hfind : Ctx.find? (b :: Γ) x = none := by
      rw [hr] at hrel
      generalize Ctx.find? (b :: Γ) x = known at hrel
      cases hrel
      rfl
    refine ⟨?_, Table.Kept.refl scope _, rfl,
      fun hc => absurd hc (State.not_clean_add _ c _ _),
      fun _ hc => absurd hc (State.not_clean_add _ c _ _)⟩
    simp only [after, Ctx.assign_eq_self hfind]
    exact h
  | some i =>
    obtain ⟨v, hfind, hty⟩ : ∃ v, Ctx.find? (b :: Γ) x = some v ∧ i.ty = v.ty := by
      rw [hr] at hrel
      generalize Ctx.find? (b :: Γ) x = known at hrel ⊢
      cases hrel with
      | some hr => exact ⟨_, rfl, hr.1⟩
    obtain ⟨hs, hk⟩ := h.assign hr
    refine ⟨?_, ?_, rfl, fun hc => ?_, fun hval hc => ?_⟩
    · simp only [State.table_expectAssignable, hsame, after]
      exact hs
    · simp only [State.table_expectAssignable, hsame]
      exact hk
    · exact (h.infer (State.expectAssignable_clean hc).1).1
    · obtain ⟨hlog, hassign⟩ := State.expectAssignable_clean hc
      refine ⟨(h.infer hlog).2, v, hfind, ?_⟩
      have hv : v.ty.isValue = true := hval.find? hfind
      rw [hty] at hassign
      refine hassign.resolve_left fun hu => ?_
      rw [hu] at hv
      cases hv

theorem inferElement_sound {s : Sight} (h : Stands s.table s.scope fs Γ) {log : Log} {a : String}
    {is : List Expr} {span : Span} (hc : Clean (inferElement s log a is span).2.2) :
    Clean log ∧ (∃ base, ReadOk Γ a base ∧
        ElementOk base (inferElement s log a is span).2.1.length
          (inferElement s log a is span).1) ∧
      ExprsOk fs Γ (inferElement s log a is span).2.1 ∧
        ∀ i ∈ (inferElement s log a is span).2.1, IndexOk i := by
  obtain ⟨his, ht⟩ := Sight.element_clean hc
  obtain ⟨ha, hok, hint⟩ := inferAll_sound h is his
  obtain ⟨hlog, hread⟩ := h.read ha
  exact ⟨hlog, ⟨_, hread, ht⟩, hok, hint rfl⟩

theorem assignElement_sound {b : Block} (span : Span) (a : String) (is : List Expr)
    (target : Span) (value : Expr) (h : Stands st.table scope fs (b :: Γ)) :
    StmtSound fs c scope (b :: Γ) st
      (checkStmt c scope st (.assignElement span a is target value)) := by
  unfold checkStmt State.assignElement
  dsimp only
  have hsame : (st.infer c scope value).2.table = st.table := rfl
  have hs : Stands (Sight.mk st.table scope c.file).table (Sight.mk st.table scope c.file).scope
      fs (b :: Γ) := h
  have hrel := h.tracks.resolveIdentifier? h.formed a
  rw [hsame]
  generalize hr : st.table.resolveIdentifier? scope a = found at hrel ⊢
  generalize hel : inferElement ⟨st.table, scope, c.file⟩ (st.infer c scope value).2.log a is target
    = el
  -- The element is looked up once more, for characters of strings cannot be assigned.
  have hread : Clean el.2.2 → Clean st.log ∧ ExprOk fs (b :: Γ) (st.infer c scope value).1 ∧
      (∃ base, ReadOk (b :: Γ) a base ∧ ElementOk base el.2.1.length el.1) ∧
        ExprsOk fs (b :: Γ) el.2.1 ∧ ∀ i ∈ el.2.1, IndexOk i := by
    subst hel
    intro hc
    obtain ⟨hlog, hels⟩ := inferElement_sound hs hc
    obtain ⟨hlog', hok⟩ := h.infer hlog
    exact ⟨hlog', hok, hels⟩
  cases found with
  | none =>
    refine ⟨?_, ?_, rfl, fun hc => ?_, fun _ hc => ?_⟩
    · rw [State.table_expectAssignable]
      exact h
    · rw [State.table_expectAssignable]
      exact Table.Kept.refl scope _
    · exact (hread (State.expectAssignable_clean hc).1).1
    · obtain ⟨_, _, ⟨base, ⟨v, hv, _⟩, _⟩, _⟩ := hread (State.expectAssignable_clean hc).1
      rw [hv] at hrel
      cases hrel
  | some i =>
    dsimp only
    split
    · refine ⟨h, Table.Kept.refl scope _, rfl,
        fun hc => absurd hc (State.not_clean_add _ c _ _),
        fun _ hc => absurd hc (State.not_clean_add _ c _ _)⟩
    · next hstr =>
      refine ⟨?_, ?_, rfl, fun hc => ?_, fun hval hc => ?_⟩
      · rw [State.table_expectAssignable]
        exact h
      · rw [State.table_expectAssignable]
        exact Table.Kept.refl scope _
      · exact (hread (State.expectAssignable_clean hc).1).1
      · obtain ⟨hlog, hassign⟩ := State.expectAssignable_clean hc
        obtain ⟨_, hok, ⟨base, hbase, hel⟩, hisok, hint⟩ := hread hlog
        refine ⟨hok, hisok, hint, ?_⟩
        obtain ⟨v, hv, ha, rfl⟩ := hbase
        rw [hv] at hrel
        cases hrel with
        | some hr =>
          have hvalue : v.ty.isValue = true := hval.find? hv
          cases hty : v.ty with
          | array element rank =>
            rw [hty] at hel
            obtain ⟨rfl, hel⟩ := hel
            refine ⟨element, ⟨v, hv, ha, hty⟩, ?_⟩
            rw [hel] at hassign
            refine hassign.resolve_left fun hu => ?_
            cases element <;> cases hu
          | string => exact absurd (hr.1.trans hty) hstr
          | _ => rw [hty] at hel hvalue; first | exact hel.elim | cases hvalue

theorem ret_sound {b : Block} (span : Span) (value : Option Expr)
    (h : Stands st.table scope fs (b :: Γ)) :
    StmtSound fs c scope (b :: Γ) st (checkStmt c scope st (.ret span value)) := by
  unfold checkStmt State.ret
  cases value with
  | none =>
    dsimp only
    split
    · next hv => exact ⟨h, Table.Kept.refl scope _, rfl, id, fun _ _ => hv⟩
    · refine ⟨h, Table.Kept.refl scope _, rfl,
        fun hc => absurd hc (State.not_clean_add _ c _ _),
        fun _ hc => absurd hc (State.not_clean_add _ c _ _)⟩
  | some e =>
    dsimp only
    split
    · next hv =>
      split
      · refine ⟨h, Table.Kept.refl scope _, rfl,
          fun hc => absurd hc (State.not_clean_add _ c _ _),
          fun _ hc => absurd hc (State.not_clean_add _ c _ _)⟩
      · next hval =>
        refine ⟨h, Table.Kept.refl scope _, rfl, fun hc => (h.infer hc).1, fun _ hc => ?_⟩
        refine ⟨(h.infer hc).2, ?_⟩
        unfold ReturnOk
        rw [if_pos hv]
        simpa using hval
    · next hv =>
      refine ⟨?_, ?_, rfl, fun hc => ?_, fun _ hc => ?_⟩
      · rw [State.table_expectAssignable]
        exact h
      · rw [State.table_expectAssignable]
        exact Table.Kept.refl scope _
      · exact (h.infer (State.expectAssignable_clean hc).1).1
      · obtain ⟨hlog, hassign⟩ := State.expectAssignable_clean hc
        refine ⟨(h.infer hlog).2, ?_⟩
        unfold ReturnOk
        rw [if_neg hv]
        exact hassign

/-! ### Statements -/

/-- Statements that are already annotated stand before the others. -/
theorem checkStmts_done (c : Setting) (scope : Nat) (ss : List Stmt) :
    ∀ (st : State) (done : List Stmt) (returns : Bool),
      checkStmts c scope st done returns ss =
        (done.reverse ++ (checkStmts c scope st [] false ss).1,
          returns || (checkStmts c scope st [] false ss).2.1,
          (checkStmts c scope st [] false ss).2.2) := by
  induction ss with
  | nil => simp [checkStmts]
  | cons s ss ih =>
    intro st done returns
    unfold checkStmts
    dsimp only
    rw [ih _ (_ :: done), ih _ [_]]
    simp [Bool.or_assoc]

theorem checkStmts_cons (c : Setting) (scope : Nat) (st : State) (s : Stmt) (ss : List Stmt) :
    checkStmts c scope st [] false (s :: ss) =
      let head := checkStmt c scope st s
      let rest := checkStmts c scope head.2.2 [] false ss
      (head.1 :: rest.1, head.2.1 || rest.2.1, rest.2.2) := by
  rw [checkStmts]
  dsimp only
  rw [checkStmts_done]
  rfl

mutual

/-- Checking a statement leaves a table that tracks the context after it; without a report the
statement is well typed. -/
theorem checkStmt_sound {b : Block} {Γ : Ctx} {scope : Nat} (st : State)
    (h : Stands st.table scope fs (b :: Γ)) :
    ∀ s : Stmt, StmtSound fs c scope (b :: Γ) st (checkStmt c scope st s)
  | .expr span e => ⟨h, Table.Kept.refl scope _, rfl, fun hc => (h.infer hc).1,
      fun _ hc => (h.infer hc).2⟩
  | .decl span x ty init => declare_sound span x ty init h
  | .assign span x target value => assign_sound span x target value h
  | .assignElement span a is target value => assignElement_sound span a is target value h
  | .ret span value => ret_sound span value h
  | .ifThen span cond body | .while span cond body => by
    have hcond := State.table_condition st c scope cond
    have h₁ : Stands (st.condition c scope cond).2.table scope fs (b :: Γ) := hcond ▸ h
    have hbody := checkStmts_sound ⟨_, (st.condition c scope cond).2.log⟩ h₁.child body
    obtain ⟨hk, hs, _⟩ := h₁.of_child hbody.stands.formed hbody.kept
    have hlt := h₁.tracks.lt_size
    refine ⟨hs, hcond ▸ hk.mono (by omega), rfl, fun hc => (h.condition (hbody.clean hc)).1,
      fun hval hc => ?_⟩
    exact ⟨(h.condition (hbody.clean hc)).2, hbody.ok hval.nil_cons hc⟩
  | .ifElse span cond body other => by
    have hcond := State.table_condition st c scope cond
    have h₁ : Stands (st.condition c scope cond).2.table scope fs (b :: Γ) := hcond ▸ h
    have hlt := h₁.tracks.lt_size
    have hbody := checkStmts_sound ⟨_, (st.condition c scope cond).2.log⟩ h₁.child body
    unfold checkStmt
    simp only [Table.snd_child]
    generalize checkStmts c _ ⟨_, (st.condition c scope cond).2.log⟩ [] false body = one at hbody ⊢
    obtain ⟨hk₁, h₂, hp₁⟩ := h₁.of_child hbody.stands.formed hbody.kept
    have hlt₁ := hbody.stands.tracks.lt_size
    have hother := checkStmts_sound ⟨_, one.2.2.log⟩ h₂.child other
    generalize checkStmts c _ ⟨_, one.2.2.log⟩ [] false other = two at hother ⊢
    obtain ⟨hk₂, h₃, hp₂⟩ := h₂.of_child hother.stands.formed hother.kept
    have hlt₂ := h₂.tracks.lt_size
    obtain ⟨b₁, Γ₁, heq₁, _⟩ := afterAll_cons [] (b :: Γ) one.1
    obtain ⟨b₂, Γ₂, heq₂, _⟩ := afterAll_cons [] (b :: Γ) two.1
    have hone := hbody.stands.tracks.kept hbody.stands.formed hk₂ (Nat.le_refl _) hlt₁ hlt₁
    have htwo := hother.stands.tracks
    rw [heq₁] at hone
    rw [heq₂] at htwo
    have hp₁' := (hk₂.parent? _ hlt₁).trans hp₁
    obtain ⟨hs, hk₃⟩ := h₃.promoteBoth hone htwo hp₁' hp₂
    refine ⟨?_, ?_, ?_, fun hc => ?_, fun hval hc => ?_⟩
    · rw [after, heq₁, heq₂]
      exact hs
    · exact hcond ▸ ((hk₁.mono (by omega)).trans (hk₂.mono (by omega))).trans hk₃
    · rw [Stmt.returns, ← hbody.returns, ← hother.returns]
    · exact (h.condition (hbody.clean (hother.clean hc))).1
    · have hc₁ := hother.clean hc
      refine ⟨(h.condition (hbody.clean hc₁)).2, hbody.ok hval.nil_cons hc₁, ?_⟩
      exact hother.ok hval.nil_cons hc
  | .doWhile span body cond => by
    have hlt := h.tracks.lt_size
    have hbody := checkStmts_sound ⟨_, st.log⟩ h.child body
    unfold checkStmt
    simp only [Table.snd_child]
    generalize checkStmts c _ ⟨_, st.log⟩ [] false body = r at hbody ⊢
    obtain ⟨hk, _, hp⟩ := h.of_child hbody.stands.formed hbody.kept
    obtain ⟨b₁, Γ₁, heq, hle⟩ := afterAll_cons [] (b :: Γ) r.1
    have hinner := hbody.stands
    rw [heq] at hinner
    obtain ⟨b₂, Γ₂, _, _, rfl⟩ := List.forall₂_cons_left_iff.mp hle
    obtain ⟨hs, hk'⟩ := hinner.promote hp
    have hcond := State.table_condition ⟨r.2.2.table.promote st.table.scopes.size scope, r.2.2.log⟩
      c scope cond
    refine ⟨?_, ?_, hbody.returns, fun hc => ?_, fun hval hc => ?_⟩
    · rw [after, heq, hcond]
      exact hs
    · rw [hcond]
      exact (hk.mono (by omega)).trans hk'
    · exact hbody.clean (hs.condition hc).1
    · obtain ⟨hc', hok⟩ := hs.condition hc
      refine ⟨hbody.ok hval.nil_cons hc', ?_⟩
      rw [heq]
      exact hok
  | .block span body => by
    have hlt := h.tracks.lt_size
    have hbody := checkStmts_sound ⟨_, st.log⟩ h.child body
    unfold checkStmt
    simp only [Table.snd_child]
    generalize checkStmts c _ ⟨_, st.log⟩ [] false body = r at hbody ⊢
    obtain ⟨hk, _, hp⟩ := h.of_child hbody.stands.formed hbody.kept
    obtain ⟨b₁, Γ₁, heq, hle⟩ := afterAll_cons [] (b :: Γ) r.1
    have hinner := hbody.stands
    rw [heq] at hinner
    obtain ⟨b₂, Γ₂, _, _, rfl⟩ := List.forall₂_cons_left_iff.mp hle
    obtain ⟨hs, hk'⟩ := hinner.promote hp
    refine ⟨?_, (hk.mono (by omega)).trans hk', hbody.returns, hbody.clean,
      fun hval hc => hbody.ok hval.nil_cons hc⟩
    rw [after, heq]
    exact hs

theorem checkStmts_sound {b : Block} {Γ : Ctx} {scope : Nat} (st : State)
    (h : Stands st.table scope fs (b :: Γ)) :
    ∀ ss : List Stmt, StmtsSound fs c scope (b :: Γ) st (checkStmts c scope st [] false ss)
  | [] => ⟨h, Table.Kept.refl scope _, rfl, id, fun _ _ => trivial⟩
  | s :: ss => by
    have hhead := checkStmt_sound st h s
    obtain ⟨b', Γ', heq, _⟩ := after_cons b Γ (checkStmt c scope st s).1
    have hmid := heq ▸ hhead.stands
    have hrest := checkStmts_sound _ hmid ss
    rw [checkStmts_cons]
    refine ⟨?_, hhead.kept.trans hrest.kept, ?_, fun hc => hhead.clean (hrest.clean hc),
      fun hval hc => ?_⟩
    · rw [afterAll, heq]
      exact hrest.stands
    · rw [anyReturns, ← hhead.returns, ← hrest.returns]
    · have hok := hhead.ok hval (hrest.clean hc)
      have hval' := hok.valued_after hval
      rw [heq] at hval'
      refine ⟨hok, ?_⟩
      rw [heq]
      exact hrest.ok hval' hc

end

end

end Quill.Typing
