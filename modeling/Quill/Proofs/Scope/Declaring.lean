import Quill.Proofs.Scope.Coherent

/-! # What a declaration changes

A declaration changes what a name means from those scopes only whose way to the root comes to the
scope of the declaration before it comes to another one that declares the name (`FirstOn`).  For
identifiers a declaration is refused by its own scope alone.  For functions it is refused by every
scope up to the root and by the built-in functions, but never by a scope inside: so a function can
be declared around another one with its signature, which goes on to hide it.

Both kinds of lookup search the way to the root for the first scope that answers, and a declaration
changes the answer of one scope that had none (`findSome?_of_answer`). -/

namespace Quill.Scope.Table

/-! ### Searching the way to the root -/

/-- The scope is on the way, and no scope before it has the property. -/
def FirstOn (way : List Nat) (has : Nat → Prop) (s : Nat) : Prop :=
  ∃ inner outer, way = inner ++ s :: outer ∧ ∀ near ∈ inner, ¬ has near

section

variable {β : Type} {answer answer' : Nat → Option β} {has : Nat → Prop} {s : Nat}

theorem not_firstOn_nil : ¬ FirstOn [] has s := by
  rintro ⟨inner, outer, heq, -⟩
  simp at heq

theorem firstOn_cons {a : Nat} {way : List Nat} :
    FirstOn (a :: way) has s ↔ a = s ∨ ¬ has a ∧ FirstOn way has s := by
  constructor
  · rintro ⟨inner, outer, heq, hinner⟩
    cases inner with
    | nil => exact .inl (List.cons.inj heq).1
    | cons b inner =>
      obtain ⟨rfl, rfl⟩ := List.cons.inj heq
      obtain ⟨hb, hrest⟩ := List.forall_mem_cons.mp hinner
      exact .inr ⟨hb, inner, outer, rfl, hrest⟩
  · rintro (rfl | ⟨ha, inner, outer, rfl, hinner⟩)
    · exact ⟨[], way, rfl, by simp⟩
    · exact ⟨a :: inner, outer, rfl, List.forall_mem_cons.mpr ⟨ha, hinner⟩⟩

/-- One scope that had no answer is given one.  A search finds it if no scope before has an answer,
and else finds what it found before. -/
theorem findSome?_of_answer {b : β} (has : Nat → Prop) (hnone : ∀ k, answer k = none ↔ ¬ has k)
    (hanswer : ∀ k, answer' k = if k = s then some b else answer k) (way : List Nat) :
    (FirstOn way has s → way.findSome? answer' = some b) ∧
      (¬ FirstOn way has s → way.findSome? answer' = way.findSome? answer) := by
  induction way with
  | nil => exact ⟨fun h => absurd h not_firstOn_nil, fun _ => rfl⟩
  | cons a way ih =>
    rw [firstOn_cons, List.findSome?_cons, List.findSome?_cons, hanswer]
    by_cases has' : a = s
    · simp [has']
    · rw [if_neg has']
      cases ha : answer a with
      | none =>
        have hno : ¬ has a := (hnone a).mp ha
        simpa [has', hno] using ih
      | some c =>
        have hyes : has a := by
          by_contra hno
          rw [(hnone a).mpr hno] at ha
          cases ha
        simp [has', hyes]

theorem findSome?_congr (hanswer : ∀ k, answer' k = answer k) (way : List Nat) :
    way.findSome? answer' = way.findSome? answer := by
  rw [funext hanswer]

end

/-! ### The way to the root -/

section

variable {t t' : Table}

theorem ancestors_eq_of_parent? (h : ∀ s, t'.parent? s = t.parent? s) (s : Nat) :
    t'.ancestors s = t.ancestors s := by
  have hup : ∀ fuel s, t'.ancestorsUpTo fuel s = t.ancestorsUpTo fuel s := by
    intro fuel
    induction fuel with
    | zero => exact fun _ => rfl
    | succ fuel ih =>
      intro s
      rw [ancestorsUpTo, ancestorsUpTo, h]
      cases t.parent? s with
      | none => rfl
      | some p => exact congrArg (s :: ·) (ih p)
  exact hup (s + 1) s

theorem Tree.parent_lt (h : t.Tree) {s p : Nat} (hp : t.parent? s = some p) : p < s := by
  by_cases hs : s < t.scopes.size
  · by_cases hroot : s = Table.root
    · rw [hroot, h.root.2.1] at hp
      cases hp
    · obtain ⟨q, hq, hsq, -⟩ := h.parent s hs hroot
      cases hsq.symm.trans hp
      exact hq
  · rw [parent?_of_le (Nat.le_of_not_lt hs)] at hp
    cases hp

theorem Tree.ancestors_of_parent (h : t.Tree) {s p : Nat} (hp : t.parent? s = some p) :
    t.ancestors s = s :: t.ancestors p := by
  have hlt : p < s := h.parent_lt hp
  unfold ancestors
  rw [ancestorsUpTo, hp]
  exact congrArg (s :: ·)
    (ancestorsUpTo_congr (fun _ _ => h.parent_lt) (fun _ _ => rfl) hlt (by omega) hlt)

/-- From a scope on the way to the root the way goes on as it does. -/
theorem Tree.ancestors_of_append (h : t.Tree) {s : Nat} {outer : List Nat} :
    ∀ {inner : List Nat} {r : Nat}, t.ancestors r = inner ++ s :: outer →
      t.ancestors s = s :: outer := by
  intro inner
  induction inner with
  | nil =>
    intro r heq
    have hr : r = s := by
      unfold ancestors at heq
      rw [ancestorsUpTo] at heq
      exact (List.cons.inj heq).1
    exact hr ▸ heq
  | cons a inner ih =>
    intro r heq
    cases hp : t.parent? r with
    | none =>
      rw [ancestors_of_none hp] at heq
      simp at heq
    | some p =>
      rw [h.ancestors_of_parent hp] at heq
      exact ih (List.cons.inj heq).2

theorem parent?_declareFunction {scope id : Nat} {name : String} {returnType : Ty}
    {arguments : List Argument}
    (hd : t.declareFunction? scope name returnType arguments = some (t', id)) (s : Nat) :
    t'.parent? s = t.parent? s := by
  unfold parent?
  rw [scopes_declareFunction hd, Array.getElem?_modify]
  split
  · cases t.scopes[s]? <;> rfl
  · rfl

end

/-! ### Identifiers -/

section

variable {t t' : Table} {scope id : Nat} {x : String} {ty : Ty}

theorem declared?_declareIdentifier (hs : scope < t.scopes.size)
    (hd : t.declareIdentifier? scope x ty = some (t', id)) (s : Nat) (y : String) :
    t'.declared? s y = if s = scope ∧ y = x then some id else t.declared? s y := by
  rw [declared?_eq_lookup, declared?_eq_lookup, identifiersOf_declareIdentifier hs hd]
  by_cases hscope : s = scope
  · rw [if_pos hscope, List.lookup_cons]
    by_cases hy : y = x
    · simp [hscope, hy]
    · have hne : (y == x) = false := by simpa using hy
      simp [hne, hy]
  · simp [hscope]

/-- An identifier that was there before is found under its number as before. -/
theorem getElem?_of_declared? (h : t.Named) {s k : Nat} {y : String}
    (hd : t.declareIdentifier? scope x ty = some (t', id)) (hk : t.declared? s y = some k) :
    t'.identifiers[k]? = t.identifiers[k]? := by
  obtain ⟨i, hi, -, -⟩ := h.declared?_eq_some_iff.mp hk
  obtain ⟨-, -, rfl⟩ := declareIdentifier?_eq_some hd
  have hlt : k < t.identifiers.size := (Array.getElem?_eq_some_iff.mp hi).1
  rw [Array.getElem?_push, if_neg (Nat.ne_of_lt hlt)]

/-- A lookup after a declaration finds the new identifier or what it found before. -/
theorem Named.resolveIdentifier?_declareIdentifier (h : t.Named) (hs : scope < t.scopes.size)
    (hd : t.declareIdentifier? scope x ty = some (t', id)) (r : Nat) (y : String) :
    (y = x ∧ FirstOn (t.ancestors r) (fun near => (t.declared? near x).isSome = true) scope →
      t'.resolveIdentifier? r y = some
        { id, name := x, ty, level := t.level scope, scope, assigned := .inBlocks #[] }) ∧
    (¬ (y = x ∧ FirstOn (t.ancestors r) (fun near => (t.declared? near x).isSome = true) scope) →
      t'.resolveIdentifier? r y = t.resolveIdentifier? r y) := by
  have hway := ancestors_eq_of_parent? (parent?_declareIdentifier hd) r
  have hdeclared := declared?_declareIdentifier hs hd
  have hold : ∀ way : List Nat, (way.findSome? (t.declared? · y)).bind (t'.identifiers[·]?) =
      (way.findSome? (t.declared? · y)).bind (t.identifiers[·]?) := by
    intro way
    cases hfound : way.findSome? (t.declared? · y) with
    | none => rfl
    | some k =>
      obtain ⟨s, -, hk⟩ := List.exists_of_findSome?_eq_some hfound
      exact getElem?_of_declared? h hd hk
  unfold resolveIdentifier?
  rw [hway]
  by_cases hy : y = x
  · subst hy
    have hanswer : ∀ k, t'.declared? k y = if k = scope then some id else t.declared? k y := by
      intro k
      rw [hdeclared]
      simp
    have hsearch := findSome?_of_answer (fun near => (t.declared? near y).isSome = true)
      (fun k => by simp) hanswer (t.ancestors r)
    constructor
    · rintro ⟨-, hfirst⟩
      obtain ⟨-, hid, rfl⟩ := declareIdentifier?_eq_some hd
      rw [hsearch.1 hfirst, Option.bind_some, hid]
      simp
    · intro hno
      rw [hsearch.2 fun hfirst => hno ⟨rfl, hfirst⟩]
      exact hold _
  · constructor
    · rintro ⟨rfl, -⟩
      exact absurd rfl hy
    · intro _
      have hsame : ∀ k, t'.declared? k y = t.declared? k y := by
        intro k
        rw [hdeclared]
        simp [hy]
      rw [findSome?_congr hsame]
      exact hold _

end

/-! ### Functions -/

section

variable {t t' : Table} {scope id : Nat} {name : String} {returnType : Ty}
  {arguments : List Argument}

/-- A declaration is refused if the signature is that of a built-in function or of a function of a
scope on the way to the root. -/
theorem declareFunction?_eq_none_iff :
    t.declareFunction? scope name returnType arguments = none ↔
      (t.builtin? name arguments.length).isSome = true ∨
        ∃ s ∈ t.ancestors scope, ∃ g ∈ t.declaredFunctions s,
          g.signature = (name, arguments.length) := by
  unfold declareFunction?
  dsimp only
  split
  · next hseen =>
    rw [Bool.or_eq_true] at hseen
    refine iff_of_true rfl (hseen.imp_right fun hsome => ?_)
    by_contra hno
    push Not at hno
    rw [resolveDeclared?_eq_none_iff.mpr hno] at hsome
    cases hsome
  · next hfree =>
    rw [Bool.or_eq_true, not_or, Option.not_isSome_iff_eq_none (o := t.resolveDeclared? _ _ _),
      resolveDeclared?_eq_none_iff] at hfree
    constructor
    · intro hnone
      cases hnone
    · rintro (hbuiltin | ⟨s, hs, g, hg, hsig⟩)
      · exact absurd hbuiltin hfree.1
      · exact absurd hsig (hfree.2 s hs g hg)

theorem builtin?_declareFunction (h : t.Callable) (hs : scope < t.scopes.size)
    (hd : t.declareFunction? scope name returnType arguments = some (t', id)) (m : String)
    (arity : Nat) : t'.builtin? m arity = t.builtin? m arity := by
  unfold builtin?
  rw [h.builtins, (h.declareFunction hs hd).builtins]

/-- The functions of a scope declare a signature. -/
def declares (t : Table) (signature : String × Nat) (s : Nat) : Prop :=
  ∃ g ∈ t.declaredFunctions s, g.signature = signature

/-- What the functions of a scope have under a signature after a declaration. -/
theorem Callable.find?_declareFunction (h : t.Callable) (hs : scope < t.scopes.size)
    (hd : t.declareFunction? scope name returnType arguments = some (t', id)) (m : String)
    (arity s : Nat) :
    (t'.declaredFunctions s).find? (·.hasSignature m arity) =
      if s = scope ∧ (m, arity) = (name, arguments.length) then
        some { id, name, returnType, arguments, level := t.level scope, isBuiltin := false }
      else (t.declaredFunctions s).find? (·.hasSignature m arity) := by
  obtain ⟨new, hnew⟩ : ∃ new : Function, new =
      { id, name, returnType, arguments, level := t.level scope, isBuiltin := false } := ⟨_, rfl⟩
  have hsig : new.signature = (name, arguments.length) := by rw [hnew]; rfl
  rw [h.declaredFunctions_declareFunction hs hd, ← hnew]
  by_cases hscope : s = scope
  · subst hscope
    rw [if_pos rfl, List.find?_append, List.find?_singleton]
    by_cases hm : (m, arity) = (name, arguments.length)
    · obtain ⟨rfl, rfl⟩ := Prod.mk.inj hm
      have hfree := resolveDeclared?_eq_none_iff.mp (declareFunction?_eq_some hd).2.1 s
        (mem_ancestors_self t s)
      rw [find?_hasSignature_eq_none_iff.mpr hfree, Option.none_or,
        if_pos ((new.hasSignature_iff _ _).mpr hsig), if_pos ⟨rfl, rfl⟩]
    · have hno : ¬ new.hasSignature m arity = true := by
        rw [Function.hasSignature_iff, hsig]
        exact fun heq => hm heq.symm
      rw [if_neg hno, Option.or_none, if_neg fun hboth => hm hboth.2]
  · rw [if_neg hscope, List.append_nil, if_neg fun hboth => hscope hboth.1]

/-- A lookup after a declaration finds the new function or what it found before. -/
theorem Callable.resolveFunction?_declareFunction (h : t.Callable) (hs : scope < t.scopes.size)
    (hd : t.declareFunction? scope name returnType arguments = some (t', id)) (r : Nat)
    (m : String) (arity : Nat) :
    ((m, arity) = (name, arguments.length) ∧
        FirstOn (t.ancestors r) (t.declares (name, arguments.length)) scope →
      t'.resolveFunction? r m arity = some
        { id, name, returnType, arguments, level := t.level scope, isBuiltin := false }) ∧
    (¬ ((m, arity) = (name, arguments.length) ∧
        FirstOn (t.ancestors r) (t.declares (name, arguments.length)) scope) →
      t'.resolveFunction? r m arity = t.resolveFunction? r m arity) := by
  have hway := ancestors_eq_of_parent? (parent?_declareFunction hd) r
  have hfind := h.find?_declareFunction hs hd m arity
  unfold resolveFunction? resolveDeclared?
  rw [hway, builtin?_declareFunction h hs hd]
  by_cases hm : (m, arity) = (name, arguments.length)
  · have hnone : ∀ k, (t.declaredFunctions k).find? (·.hasSignature m arity) = none ↔
        ¬ t.declares (name, arguments.length) k := by
      intro k
      rw [find?_hasSignature_eq_none_iff, hm]
      simp [declares]
    have hanswer : ∀ k, (t'.declaredFunctions k).find? (·.hasSignature m arity) =
        if k = scope then
          some { id, name, returnType, arguments, level := t.level scope, isBuiltin := false }
        else (t.declaredFunctions k).find? (·.hasSignature m arity) := by
      intro k
      rw [hfind]
      simp only [hm, and_true]
    have hsearch := findSome?_of_answer _ hnone hanswer (t.ancestors r)
    constructor
    · rintro ⟨-, hfirst⟩
      rw [hsearch.1 hfirst, Option.some_or]
    · intro hno
      rw [hsearch.2 fun hfirst => hno ⟨hm, hfirst⟩]
  · constructor
    · rintro ⟨heq, -⟩
      exact absurd heq hm
    · intro _
      have hsame : ∀ k, (t'.declaredFunctions k).find? (·.hasSignature m arity) =
          (t.declaredFunctions k).find? (·.hasSignature m arity) := by
        intro k
        rw [hfind, if_neg fun hboth => hm hboth.2]
      rw [findSome?_congr hsame]

/-- Where a lookup finds the new function, it found nothing before. -/
theorem resolveFunction?_eq_none (h : t.Tree)
    (hd : t.declareFunction? scope name returnType arguments = some (t', id)) {r : Nat}
    (hfirst : FirstOn (t.ancestors r) (t.declares (name, arguments.length)) scope) :
    t.resolveFunction? r name arguments.length = none := by
  obtain ⟨hbuiltin, houter, -, -⟩ := declareFunction?_eq_some hd
  obtain ⟨inner, outer, hway, hinner⟩ := hfirst
  have hup := h.ancestors_of_append hway
  rw [resolveDeclared?_eq_none_iff, hup] at houter
  have hnone : t.resolveDeclared? r name arguments.length = none := by
    refine resolveDeclared?_eq_none_iff.mpr fun s hs g hg hsig => ?_
    rw [hway] at hs
    rcases List.mem_append.mp hs with hs | hs
    · exact hinner s hs ⟨g, hg, hsig⟩
    · exact houter s hs g hg hsig
  rw [resolveFunction?, hnone, hbuiltin, Option.or_none]

end

/-! ### Declarations -/

/-- **The effect of a declaration on lookups.**  A declaration of an identifier is refused, and the
table stays as it is, if the scope itself declares the name.  Otherwise the name means the new
identifier from all scopes that come to the scope of the declaration before they come to another one
that declares the name, and all other lookups find what they found before.

A declaration of a function is refused, and the table stays as it is, just if a built-in function or
a scope on the way to the root has its signature.  Otherwise it changes a lookup just if that asks
for this signature from a scope that comes to the scope of the declaration before it comes to
another one that declares the signature; then the lookup finds the new function. -/
theorem Reachable.declaration_effect {t : Table} (h : t.Reachable) {s : Nat}
    (hs : s < t.scopes.size) (n : String) :
    (∀ ty, match t.declareIdentifier? s n ty with
      | none => t.after (.identifier s n ty) = t ∧ (t.declared? s n).isSome = true
      | some (t', id) => t.identifiers[id]? = none ∧ ∀ r m,
        (m = n ∧ FirstOn (t.ancestors r) (fun near => (t.declared? near n).isSome = true) s →
          t'.resolveIdentifier? r m = some
            { id, name := n, ty, level := t.level s, scope := s, assigned := .inBlocks #[] }) ∧
        (¬ (m = n ∧ FirstOn (t.ancestors r) (fun near => (t.declared? near n).isSome = true) s) →
          t'.resolveIdentifier? r m = t.resolveIdentifier? r m)) ∧
    ∀ returnType arguments,
      (t.declareFunction? s n returnType arguments = none ↔
        (t.builtin? n arguments.length).isSome = true ∨
          ∃ outer ∈ t.ancestors s, t.declares (n, arguments.length) outer) ∧
      match t.declareFunction? s n returnType arguments with
      | none => t.after (.function s n returnType arguments) = t
      | some (t', id) => ∀ r m arity,
        (t'.resolveFunction? r m arity ≠ t.resolveFunction? r m arity ↔
          (m, arity) = (n, arguments.length) ∧
            FirstOn (t.ancestors r) (t.declares (n, arguments.length)) s) ∧
        ((m, arity) = (n, arguments.length) ∧
            FirstOn (t.ancestors r) (t.declares (n, arguments.length)) s →
          t'.resolveFunction? r m arity = some
            { id, name := n, returnType, arguments, level := t.level s, isBuiltin := false }) := by
  obtain ⟨htree, hnamed, hcallable⟩ := h.keeps
  constructor
  · intro ty
    cases hd : t.declareIdentifier? s n ty with
    | none =>
      refine ⟨by rw [Table.after, hd]; rfl, ?_⟩
      unfold declareIdentifier? at hd
      split at hd
      · next hdeclared => rw [hdeclared]; rfl
      · cases hd
    | some r =>
      obtain ⟨t', id⟩ := r
      refine ⟨?_, hnamed.resolveIdentifier?_declareIdentifier hs hd⟩
      rw [(declareIdentifier?_eq_some hd).2.1]
      exact Array.getElem?_eq_none (Nat.le_refl _)
  · intro returnType arguments
    refine ⟨declareFunction?_eq_none_iff, ?_⟩
    cases hd : t.declareFunction? s n returnType arguments with
    | none =>
      show t.after (.function s n returnType arguments) = t
      rw [Table.after, hd]
      rfl
    | some result =>
      obtain ⟨t', id⟩ := result
      intro r m arity
      obtain ⟨hnew, hold⟩ := hcallable.resolveFunction?_declareFunction hs hd r m arity
      refine ⟨⟨fun hne => ?_, fun hshown => ?_⟩, hnew⟩
      · by_contra hno
        exact hne (hold hno)
      · obtain ⟨heq, hfirst⟩ := hshown
        obtain ⟨rfl, rfl⟩ := Prod.mk.inj heq
        rw [hnew ⟨rfl, hfirst⟩, resolveFunction?_eq_none htree hd hfirst]
        simp

/-- Two nested blocks of which the inner one declares a function. -/
def innerFirst : Table :=
  [Request.child root, .child 1, .function 2 "f" .void []].foldl after initial

/-- The block around it can declare the function again; the inner block goes on to mean its own. -/
theorem innerFirst_effect : ∃ t' id, innerFirst.declareFunction? 1 "f" .integer [] = some (t', id) ∧
    (t'.resolveFunction? 1 "f" 0).map (·.returnType) = some .integer ∧
    t'.resolveFunction? 2 "f" 0 = innerFirst.resolveFunction? 2 "f" 0 := by
  have h : innerFirst.Reachable := by
    unfold innerFirst
    simp only [List.foldl_cons, List.foldl_nil]
    refine .after (.after (.after .initial _ ?_) _ ?_) _ ?_
    all_goals decide +kernel
  have heffect := (h.declaration_effect (s := 1) (by decide +kernel) "f").2 .integer []
  have hfree : innerFirst.declareFunction? 1 "f" .integer [] ≠ none := by decide +kernel
  cases hd : innerFirst.declareFunction? 1 "f" .integer [] with
  | none => exact absurd hd hfree
  | some result =>
    obtain ⟨t', id⟩ := result
    rw [hd] at heffect
    have houter : innerFirst.ancestors 1 = [1, 0] := by decide +kernel
    have hinner : innerFirst.ancestors 2 = [2, 1, 0] := by decide +kernel
    have hdeclares : innerFirst.declares ("f", 0) 2 := by
      unfold declares
      decide +kernel
    refine ⟨t', id, rfl, ?_, ?_⟩
    · rw [(heffect.2 1 "f" 0).2 ⟨rfl, [], [0], houter, by simp⟩]
      rfl
    · by_contra hne
      have hshown := ((heffect.2 2 "f" 0).1.mp hne).2
      rw [hinner, firstOn_cons] at hshown
      rcases hshown with heq | ⟨hno, -⟩
      · cases heq
      · exact hno hdeclares

end Quill.Scope.Table
