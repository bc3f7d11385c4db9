import Mathlib.Data.List.Nodup
import Quill.Proofs.Scope.Chain

/-! # What every symbol table keeps

`Reachable` are the tables that grow out of the initial one by new scopes, declarations and records
of assignment, in any order.  In each of them the scopes are a tree under the root (`Tree`), an
identifier stands in the map of one scope under its own name (`Named`), and a scope has at most one
function for a name and a number of arguments, none of them that of a built-in function
(`Callable`).  One lemma for each operation shows that it keeps the three.

From the first follows that the way to the root is as long as the level of a scope (`Rooted`), and
from all of them what a name means: the nearest declaration, and a built-in function wherever its
name and number of arguments are those of one (`NearestFirst`). -/

namespace Quill.Scope

/-- What tells the functions of a scope apart: the name and the number of arguments. -/
def Function.signature (f : Function) : String × Nat := (f.name, f.arity)

theorem Function.hasSignature_iff (f : Function) (name : String) (arity : Nat) :
    f.hasSignature name arity = true ↔ f.signature = (name, arity) := by
  unfold hasSignature signature
  rw [decide_eq_true_eq, Prod.mk.injEq]

namespace Table

inductive Request where
  | child (parent : Nat)
  | identifier (scope : Nat) (name : String) (ty : Ty)
  | function (scope : Nat) (name : String) (returnType : Ty) (arguments : List Argument)
  | markEverywhere (id : Nat)
  | markInBlock (id block : Nat)
  | markAssigned (id block : Nat)
  deriving DecidableEq, Repr

/-- The table has given out the numbers of a request. -/
def knows (t : Table) : Request → Bool
  | .child parent => parent < t.scopes.size
  | .identifier scope _ _ => scope < t.scopes.size
  | .function scope _ _ _ => scope < t.scopes.size
  | .markEverywhere id => id < t.identifiers.size
  | .markInBlock id block => id < t.identifiers.size && block < t.scopes.size
  | .markAssigned id block => id < t.identifiers.size && block < t.scopes.size

/-- The table after a request; a declaration that is refused leaves it as it is. -/
def after (t : Table) : Request → Table
  | .child parent => (t.child parent).1
  | .identifier scope name ty => ((t.declareIdentifier? scope name ty).map Prod.fst).getD t
  | .function scope name returnType arguments =>
    ((t.declareFunction? scope name returnType arguments).map Prod.fst).getD t
  | .markEverywhere id => t.markEverywhere id
  | .markInBlock id block => t.markInBlock id block
  | .markAssigned id block => t.markAssigned id block

/-- The tables that grow out of the initial one by any requests with numbers that the table has
given out. -/
inductive Reachable : Table → Prop
  | initial : Reachable initial
  | after {t : Table} (h : Reachable t) (r : Request) (hr : t.knows r = true) :
      Reachable (t.after r)

/-- The map of a scope from names to identifiers. -/
def identifiersOf (t : Table) (scope : Nat) : List (String × Nat) :=
  (t.scopes[scope]?.map (·.identifiers)).getD []

/-- The numbers of the functions that a scope declares. -/
def functionsOf (t : Table) (scope : Nat) : List Nat :=
  ((t.scopes[scope]?.map (·.functions)).getD #[]).toList

/-- The scopes are a tree under the root: each other scope has an older parent one level above it,
and a scope is listed once among the children of its parent and nowhere else. -/
structure Tree (t : Table) : Prop where
  root : root < t.scopes.size ∧ t.parent? root = none ∧ t.level root = rootLevel
  parent : ∀ s < t.scopes.size, s ≠ Table.root →
    ∃ p < s, t.parent? s = some p ∧ t.level s = t.level p + 1
  children : ∀ s c, (t.children s).count c = if t.parent? c = some s then 1 else 0

/-- An identifier stands in the map of its own scope under its own name, once, and in no other map
and under no other name. -/
structure Named (t : Table) : Prop where
  identifier : ∀ (k : Nat) i, t.identifiers[k]? = some i →
    i.id = k ∧ i.scope < t.scopes.size ∧ i.level = t.level i.scope
  listed : ∀ s x k, (x, k) ∈ t.identifiersOf s ↔
    ∃ i, t.identifiers[k]? = some i ∧ i.name = x ∧ i.scope = s
  nodup : ∀ s, ((t.identifiersOf s).map Prod.fst).Nodup

/-- The functions of one scope differ in name or number of arguments, and the declared functions
differ so from the built-in ones, which are always the same. -/
structure Callable (t : Table) : Prop where
  listed : ∀ s, ∀ k ∈ t.functionsOf s, ∃ f, t.functions[k]? = some f ∧ f.isBuiltin = false
  distinct : ∀ s, ((t.declaredFunctions s).map Function.signature).Nodup
  builtins : t.builtinList = builtinFunctions.toList
  apart : ∀ f ∈ t.functions, f.isBuiltin = false →
    ∀ b ∈ builtinFunctions, b.signature ≠ f.signature

/-! ### The initial table -/

theorem tree_initial : Tree initial := by
  refine ⟨⟨by decide, rfl, rfl⟩, fun s hs hne => ?_, fun s c => ?_⟩
  · have hsize : initial.scopes.size = 1 := rfl
    exact absurd hs (by unfold Table.root at hne; omega)
  · have hparent : initial.parent? c = none := by
      unfold parent?
      cases c <;> rfl
    have hchildren : initial.children s = #[] := by
      unfold children
      cases s <;> rfl
    rw [hparent, hchildren]
    rfl

theorem identifiersOf_initial (s : Nat) : initial.identifiersOf s = [] := by
  unfold identifiersOf
  cases s <;> rfl

theorem named_initial : Named initial := by
  have hnone : ∀ k : Nat, initial.identifiers[k]? = none := fun _ => rfl
  refine ⟨fun k i hi => ?_, fun s x k => ?_, fun s => ?_⟩
  · rw [hnone] at hi
    cases hi
  · rw [identifiersOf_initial, hnone]
    simp
  · rw [identifiersOf_initial]
    exact List.nodup_nil

theorem functionsOf_initial (s : Nat) : initial.functionsOf s = [] := by
  unfold functionsOf
  cases s <;> rfl

theorem declaredFunctions_eq (t : Table) (s : Nat) :
    t.declaredFunctions s = (t.functionsOf s).filterMap (t.functions[·]?) := rfl

theorem isBuiltin_of_mem_builtinFunctions : ∀ f ∈ builtinFunctions, f.isBuiltin = true := by
  intro f hf
  unfold builtinFunctions at hf
  rw [List.mem_toArray] at hf
  obtain ⟨_, _, rfl⟩ := List.mem_map.mp hf
  rfl

theorem callable_initial : Callable initial := by
  refine ⟨fun s k hk => ?_, fun s => ?_, ?_, fun f hf hb => ?_⟩
  · rw [functionsOf_initial] at hk
    cases hk
  · rw [declaredFunctions_eq, functionsOf_initial]
    exact List.nodup_nil
  · exact List.filter_eq_self.mpr fun f hf =>
      isBuiltin_of_mem_builtinFunctions f (Array.mem_toList_iff.mp hf)
  · rw [isBuiltin_of_mem_builtinFunctions f hf] at hb
    cases hb

/-! ### New scopes -/

theorem level_child_old (t : Table) (p : Nat) {s : Nat} (hs : s < t.scopes.size) :
    (t.child p).1.level s = t.level s := by
  unfold level
  rw [getElem?_scopes_child, if_neg (by omega)]
  split
  · cases t.scopes[s]? <;> rfl
  · rfl

theorem level_child_new (t : Table) (p : Nat) :
    (t.child p).1.level t.scopes.size = t.level p + 1 := by
  unfold level
  rw [getElem?_scopes_child, if_pos rfl]
  rfl

theorem parent?_of_le {t : Table} {s : Nat} (hs : t.scopes.size ≤ s) : t.parent? s = none := by
  unfold parent?
  rw [Array.getElem?_eq_none hs]
  rfl

theorem children_child {t : Table} {p : Nat} (hp : p < t.scopes.size) (s : Nat) :
    (t.child p).1.children s =
      if s = p then (t.children s).push t.scopes.size else t.children s := by
  unfold children
  rw [getElem?_scopes_child]
  by_cases hs : s = t.scopes.size
  · rw [if_pos hs, if_neg (by omega), Array.getElem?_eq_none (Nat.le_of_eq hs.symm)]
    rfl
  · rw [if_neg hs]
    by_cases hsp : s = p
    · subst hsp
      rw [if_pos rfl, if_pos rfl, Array.getElem?_eq_getElem hp]
      rfl
    · rw [if_neg (fun h => hsp h.symm), if_neg hsp]

theorem parent?_child {t : Table} (p c : Nat) :
    (t.child p).1.parent? c = if c = t.scopes.size then some p else t.parent? c := by
  rcases Nat.lt_trichotomy c t.scopes.size with hc | rfl | hc
  · rw [if_neg (by omega), (kept_child t p).parent? c hc]
  · rw [if_pos rfl, parent?_child_new]
  · have hc' : (t.child p).1.scopes.size ≤ c := by
      rw [size_scopes_child]
      omega
    rw [if_neg (by omega), parent?_of_le hc', parent?_of_le (Nat.le_of_lt hc)]

theorem Tree.child {t : Table} (h : t.Tree) {p : Nat} (hp : p < t.scopes.size) :
    (t.child p).1.Tree := by
  obtain ⟨hroot, hnone, hlevel⟩ := h.root
  refine ⟨⟨?_, ?_, ?_⟩, fun s hs hne => ?_, fun s c => ?_⟩
  · rw [size_scopes_child]
    omega
  · rw [parent?_child, if_neg (by omega), hnone]
  · rw [level_child_old t p hroot, hlevel]
  · rw [size_scopes_child] at hs
    by_cases hnew : s = t.scopes.size
    · subst hnew
      refine ⟨p, hp, parent?_child_new t p, ?_⟩
      rw [level_child_new, level_child_old t p hp]
    · have hold : s < t.scopes.size := by omega
      obtain ⟨q, hq, hsq, hlev⟩ := h.parent s hold hne
      refine ⟨q, hq, ?_, ?_⟩
      · rw [parent?_child, if_neg hnew, hsq]
      · rw [level_child_old t p hold, level_child_old t p (by omega), hlev]
  · rw [children_child hp, parent?_child]
    by_cases hc : c = t.scopes.size
    · subst hc
      have hzero : (t.children s).count t.scopes.size = 0 := by
        rw [h.children, parent?_of_le (Nat.le_refl _), if_neg (by simp)]
      rw [if_pos rfl]
      by_cases hs : s = p
      · subst hs
        simp [hzero]
      · have hps : p ≠ s := fun h => hs h.symm
        simp [hs, hps, hzero]
    · rw [if_neg hc, ← h.children s c]
      split
      · rw [Array.count_push, if_neg (by simpa using fun h => hc h.symm)]
        rfl
      · rfl

theorem identifiersOf_child (t : Table) (p s : Nat) :
    (t.child p).1.identifiersOf s = t.identifiersOf s := by
  unfold identifiersOf
  rw [getElem?_scopes_child]
  split
  · next hs => rw [Array.getElem?_eq_none (Nat.le_of_eq hs.symm)]; rfl
  · split
    · cases t.scopes[s]? <;> rfl
    · rfl

theorem functionsOf_child (t : Table) (p s : Nat) :
    (t.child p).1.functionsOf s = t.functionsOf s := by
  unfold functionsOf
  rw [getElem?_scopes_child]
  split
  · next hs => rw [Array.getElem?_eq_none (Nat.le_of_eq hs.symm)]; rfl
  · split
    · cases t.scopes[s]? <;> rfl
    · rfl

/-! ### Tables that agree in part -/

/-- The scopes' places in the tree are all that `Tree` speaks of. -/
theorem Tree.congr {t t' : Table} (h : t.Tree) (hsize : t'.scopes.size = t.scopes.size)
    (hparent : ∀ s, t'.parent? s = t.parent? s) (hlevel : ∀ s, t'.level s = t.level s)
    (hchildren : ∀ s, t'.children s = t.children s) : t'.Tree := by
  refine ⟨?_, fun s hs hne => ?_, fun s c => ?_⟩
  · rw [hsize, hparent, hlevel]
    exact h.root
  · obtain ⟨p, hp, hsp, hl⟩ := h.parent s (hsize ▸ hs) hne
    exact ⟨p, hp, (hparent s).trans hsp, by rw [hlevel, hlevel, hl]⟩
  · rw [hchildren, hparent]
    exact h.children s c

/-- Other identifiers are not needed for `Named` than those of the table and its maps. -/
theorem Named.congr {t t' : Table} (h : t.Named) (hid : t'.identifiers = t.identifiers)
    (hsize : t.scopes.size ≤ t'.scopes.size)
    (hlevel : ∀ s < t.scopes.size, t'.level s = t.level s)
    (hof : ∀ s, t'.identifiersOf s = t.identifiersOf s) : t'.Named := by
  refine ⟨fun k i hi => ?_, fun s x k => ?_, fun s => ?_⟩
  · obtain ⟨hk, hs, hl⟩ := h.identifier k i (hid ▸ hi)
    exact ⟨hk, Nat.lt_of_lt_of_le hs hsize, hl.trans (hlevel i.scope hs).symm⟩
  · rw [hof, hid]
    exact h.listed s x k
  · rw [hof]
    exact h.nodup s

theorem Callable.congr {t t' : Table} (h : t.Callable) (hfun : t'.functions = t.functions)
    (hof : ∀ s, t'.functionsOf s = t.functionsOf s) : t'.Callable := by
  have hdeclared : ∀ s, t'.declaredFunctions s = t.declaredFunctions s := fun s => by
    rw [declaredFunctions_eq, declaredFunctions_eq, hof, hfun]
  refine ⟨fun s k hk => ?_, fun s => ?_, ?_, fun f hf => ?_⟩
  · rw [hfun]
    exact h.listed s k (hof s ▸ hk)
  · rw [hdeclared]
    exact h.distinct s
  · rw [← h.builtins, builtinList, builtinList, hfun]
  · exact h.apart f (hfun ▸ hf)

theorem Named.child {t : Table} (h : t.Named) (p : Nat) : (t.child p).1.Named :=
  h.congr rfl (by rw [size_scopes_child]; omega) (fun _ hs => level_child_old t p hs)
    (identifiersOf_child t p)

theorem Callable.child {t : Table} (h : t.Callable) (p : Nat) : (t.child p).1.Callable :=
  h.congr rfl (functionsOf_child t p)

/-! ### Changed scopes -/

/-- A change of one scope keeps what the change of an entry keeps. -/
theorem map_getElem?_modify {β : Type} {f : Entry → Entry} {g : Entry → β}
    (h : ∀ e, g (f e) = g e) (scopes : Array Entry) (scope s : Nat) :
    (scopes.modify scope f)[s]?.map g = scopes[s]?.map g := by
  rw [Array.getElem?_modify]
  split
  · rw [Option.map_map]
    exact congrArg (Option.map · _) (funext h)
  · rfl

theorem level_modify {t t' : Table} {scope : Nat} {f : Entry → Entry}
    (ht : t'.scopes = t.scopes.modify scope f) (h : ∀ e, (f e).level = e.level) (s : Nat) :
    t'.level s = t.level s := by
  rw [level, level, ht, map_getElem?_modify h]

theorem identifiersOf_modify {t t' : Table} {scope : Nat} {f : Entry → Entry}
    (ht : t'.scopes = t.scopes.modify scope f) (h : ∀ e, (f e).identifiers = e.identifiers)
    (s : Nat) : t'.identifiersOf s = t.identifiersOf s := by
  rw [identifiersOf, identifiersOf, ht, map_getElem?_modify h]

theorem functionsOf_modify {t t' : Table} {scope : Nat} {f : Entry → Entry}
    (ht : t'.scopes = t.scopes.modify scope f) (h : ∀ e, (f e).functions = e.functions)
    (s : Nat) : t'.functionsOf s = t.functionsOf s := by
  rw [functionsOf, functionsOf, ht, map_getElem?_modify h]

/-- A change of one scope that leaves it where it is in the tree keeps the tree. -/
theorem Tree.modify {t t' : Table} (h : t.Tree) {scope : Nat} {f : Entry → Entry}
    (ht : t'.scopes = t.scopes.modify scope f) (hparent : ∀ e, (f e).parent = e.parent)
    (hlevel : ∀ e, (f e).level = e.level) (hchildren : ∀ e, (f e).children = e.children) :
    t'.Tree := by
  refine h.congr ?_ (fun s => ?_) (level_modify ht hlevel) fun s => ?_
  · rw [ht, Array.size_modify]
  · have hjoin : ∀ u : Table, u.parent? s = (u.scopes[s]?.map (·.parent)).join := by
      intro u
      unfold parent?
      cases u.scopes[s]? <;> rfl
    rw [hjoin, hjoin, ht, map_getElem?_modify hparent]
  · rw [Table.children, Table.children, ht, map_getElem?_modify hchildren]

/-! ### New identifiers -/

theorem scopes_declareIdentifier {t t' : Table} {scope id : Nat} {x : String} {ty : Ty}
    (hd : t.declareIdentifier? scope x ty = some (t', id)) :
    t'.scopes = t.scopes.modify scope fun e =>
      { e with identifiers := (x, id) :: e.identifiers } := by
  obtain ⟨_, _, rfl⟩ := declareIdentifier?_eq_some hd
  rfl

/-- A successful declaration adds the name to the map of its scope. -/
theorem identifiersOf_declareIdentifier {t t' : Table} {scope id : Nat} {x : String} {ty : Ty}
    (hs : scope < t.scopes.size) (hd : t.declareIdentifier? scope x ty = some (t', id)) (s : Nat) :
    t'.identifiersOf s =
      if s = scope then (x, id) :: t.identifiersOf s else t.identifiersOf s := by
  unfold identifiersOf
  rw [scopes_declareIdentifier hd, Array.getElem?_modify]
  by_cases h : s = scope
  · subst h
    rw [if_pos rfl, if_pos rfl, Array.getElem?_eq_getElem hs]
    rfl
  · rw [if_neg (fun h' => h h'.symm), if_neg h]

theorem declared?_eq_lookup (t : Table) (s : Nat) (x : String) :
    t.declared? s x = (t.identifiersOf s).lookup x := by
  unfold declared? identifiersOf
  cases t.scopes[s]? <;> rfl

theorem Tree.declareIdentifier {t t' : Table} {scope id : Nat} {x : String} {ty : Ty} (h : t.Tree)
    (hd : t.declareIdentifier? scope x ty = some (t', id)) : t'.Tree :=
  h.modify (scopes_declareIdentifier hd) (fun _ => rfl) (fun _ => rfl) fun _ => rfl

theorem Named.declareIdentifier {t t' : Table} {scope id : Nat} {x : String} {ty : Ty}
    (h : t.Named) (hs : scope < t.scopes.size)
    (hd : t.declareIdentifier? scope x ty = some (t', id)) : t'.Named := by
  have hof := identifiersOf_declareIdentifier hs hd
  have hlevel := level_modify (scopes_declareIdentifier hd) fun _ => rfl
  obtain ⟨hnone, hid, ht'⟩ := declareIdentifier?_eq_some hd
  obtain ⟨new, hnew⟩ : ∃ new : Identifier, new =
      { id, name := x, ty, level := t.level scope, scope, assigned := .inBlocks #[] } := ⟨_, rfl⟩
  have hsize : t'.scopes.size = t.scopes.size := by rw [ht', Array.size_modify]
  have hget : ∀ k : Nat, t'.identifiers[k]? = if k = id then some new else t.identifiers[k]? := by
    intro k
    rw [ht', hnew, hid, Array.getElem?_push]
  refine ⟨fun k i hi => ?_, fun s y k => ?_, fun s => ?_⟩
  · rw [hget] at hi
    rw [hsize, hlevel]
    split at hi
    · next hk =>
      obtain rfl : new = i := Option.some.inj hi
      rw [hnew]
      exact ⟨hk.symm, hs, rfl⟩
    · exact h.identifier k i hi
  · rw [hof, hget]
    by_cases hk : k = id
    · -- The number is new, so only the new entry has it.
      have hold : (y, k) ∉ t.identifiersOf s := by
        rw [h.listed, hk, hid, Array.getElem?_eq_none (Nat.le_refl _)]
        simp
      rw [if_pos hk]
      by_cases hsc : s = scope
      · rw [if_pos hsc, List.mem_cons, or_iff_left hold]
        simp [hnew, hk, hsc, eq_comm]
      · have hsc' : scope ≠ s := fun h => hsc h.symm
        rw [if_neg hsc]
        simp [hnew, hold, hsc']
    · rw [if_neg hk, ← h.listed s y k]
      split
      · simp [hk]
      · rfl
  · rw [hof]
    split
    · next hsc =>
      subst hsc
      rw [declared?_eq_lookup, List.lookup_eq_none_iff] at hnone
      refine List.nodup_cons.mpr ⟨fun hmem => ?_, h.nodup s⟩
      obtain ⟨q, hq, hqx⟩ := List.mem_map.mp hmem
      exact absurd (hnone q hq) (by simp [hqx])
    · exact h.nodup s

theorem Callable.declareIdentifier {t t' : Table} {scope id : Nat} {x : String} {ty : Ty}
    (h : t.Callable) (hd : t.declareIdentifier? scope x ty = some (t', id)) : t'.Callable := by
  refine h.congr ?_ (functionsOf_modify (scopes_declareIdentifier hd) fun _ => rfl)
  obtain ⟨_, _, rfl⟩ := declareIdentifier?_eq_some hd
  rfl

/-! ### New functions -/

/-- What a successful declaration of a function adds, and that nothing stood in its way. -/
theorem declareFunction?_eq_some {t t' : Table} {scope id : Nat} {name : String} {returnType : Ty}
    {arguments : List Argument}
    (hd : t.declareFunction? scope name returnType arguments = some (t', id)) :
    t.builtin? name arguments.length = none ∧
      t.resolveDeclared? scope name arguments.length = none ∧ id = t.functions.size ∧
      t' = { t with
        functions := t.functions.push
          { id, name, returnType, arguments, level := t.level scope, isBuiltin := false }
        scopes := t.scopes.modify scope fun e => { e with functions := e.functions.push id } } := by
  unfold declareFunction? at hd
  dsimp only at hd
  split at hd
  · cases hd
  · next hfree =>
    rw [Bool.or_eq_true, not_or, Option.not_isSome_iff_eq_none, Option.not_isSome_iff_eq_none]
      at hfree
    obtain ⟨rfl, rfl⟩ := Prod.mk.inj (Option.some.inj hd)
    exact ⟨hfree.1, hfree.2, rfl, rfl⟩

theorem scopes_declareFunction {t t' : Table} {scope id : Nat} {name : String} {returnType : Ty}
    {arguments : List Argument}
    (hd : t.declareFunction? scope name returnType arguments = some (t', id)) :
    t'.scopes = t.scopes.modify scope fun e => { e with functions := e.functions.push id } := by
  obtain ⟨_, _, _, rfl⟩ := declareFunction?_eq_some hd
  rfl

theorem Tree.declareFunction {t t' : Table} {scope id : Nat} {name : String} {returnType : Ty}
    {arguments : List Argument} (h : t.Tree)
    (hd : t.declareFunction? scope name returnType arguments = some (t', id)) : t'.Tree :=
  h.modify (scopes_declareFunction hd) (fun _ => rfl) (fun _ => rfl) fun _ => rfl

theorem Named.declareFunction {t t' : Table} {scope id : Nat} {name : String} {returnType : Ty}
    {arguments : List Argument} (h : t.Named)
    (hd : t.declareFunction? scope name returnType arguments = some (t', id)) : t'.Named := by
  have hscopes := scopes_declareFunction hd
  refine h.congr ?_ ?_ (fun s _ => level_modify hscopes (fun _ => rfl) s)
    (identifiersOf_modify hscopes fun _ => rfl)
  · obtain ⟨_, _, _, rfl⟩ := declareFunction?_eq_some hd
    rfl
  · have hsize : t'.scopes.size = t.scopes.size := by rw [hscopes, Array.size_modify]
    exact Nat.le_of_eq hsize.symm

theorem mem_ancestors_self (t : Table) (s : Nat) : s ∈ t.ancestors s := by
  unfold ancestors
  rw [ancestorsUpTo]
  exact List.mem_cons_self

theorem functionsOf_declareFunction {t t' : Table} {scope id : Nat} {name : String}
    {returnType : Ty} {arguments : List Argument} (hs : scope < t.scopes.size)
    (hd : t.declareFunction? scope name returnType arguments = some (t', id)) (s : Nat) :
    t'.functionsOf s = t.functionsOf s ++ if s = scope then [id] else [] := by
  unfold functionsOf
  rw [scopes_declareFunction hd, Array.getElem?_modify]
  by_cases h : s = scope
  · subst h
    rw [if_pos rfl, if_pos rfl, Array.getElem?_eq_getElem hs]
    simp
  · rw [if_neg (fun h' => h h'.symm), if_neg h, List.append_nil]

/-- A successful declaration adds the function behind those of its scope. -/
theorem Callable.declaredFunctions_declareFunction {t t' : Table} {scope id : Nat} {name : String}
    {returnType : Ty} {arguments : List Argument} (h : t.Callable) (hs : scope < t.scopes.size)
    (hd : t.declareFunction? scope name returnType arguments = some (t', id)) (s : Nat) :
    t'.declaredFunctions s = t.declaredFunctions s ++ if s = scope then
      [{ id, name, returnType, arguments, level := t.level scope, isBuiltin := false }] else [] := by
  have hof := functionsOf_declareFunction hs hd
  obtain ⟨_, _, hid, ht'⟩ := declareFunction?_eq_some hd
  obtain ⟨new, hnew⟩ : ∃ new : Function, new =
      { id, name, returnType, arguments, level := t.level scope, isBuiltin := false } := ⟨_, rfl⟩
  have hfun : t'.functions = t.functions.push new := by rw [ht', hnew]
  have hnewId : t'.functions[id]? = some new := by rw [hfun, hid]; simp
  rw [← hnew, declaredFunctions_eq, declaredFunctions_eq, hof, List.filterMap_append]
  congr 1
  · refine List.filterMap_congr fun k hk => ?_
    obtain ⟨f, hf, _⟩ := h.listed s k hk
    have hlt : k < t.functions.size := (Array.getElem?_eq_some_iff.mp hf).1
    rw [hfun, Array.getElem?_push, if_neg (Nat.ne_of_lt hlt)]
  · split
    · rw [List.filterMap_cons, hnewId, List.filterMap_nil]
    · rfl

theorem Callable.declareFunction {t t' : Table} {scope id : Nat} {name : String} {returnType : Ty}
    {arguments : List Argument} (h : t.Callable) (hs : scope < t.scopes.size)
    (hd : t.declareFunction? scope name returnType arguments = some (t', id)) : t'.Callable := by
  have hof := functionsOf_declareFunction hs hd
  obtain ⟨hbuiltin, hdeclared, hid, ht'⟩ := declareFunction?_eq_some hd
  obtain ⟨new, hnew⟩ : ∃ new : Function, new =
      { id, name, returnType, arguments, level := t.level scope, isBuiltin := false } := ⟨_, rfl⟩
  have hsig : new.signature = (name, arguments.length) := by rw [hnew]; rfl
  have hfun : t'.functions = t.functions.push new := by rw [ht', hnew]
  have hnewId : t'.functions[id]? = some new := by rw [hfun, hid]; simp
  have hold : ∀ (k : Nat) f, t.functions[k]? = some f → t'.functions[k]? = some f := by
    intro k f hf
    have hk : k < t.functions.size := (Array.getElem?_eq_some_iff.mp hf).1
    rw [hfun, Array.getElem?_push, if_neg (by omega), hf]
  have hlist : ∀ s, t'.declaredFunctions s =
      t.declaredFunctions s ++ if s = scope then [new] else [] := by
    rw [hnew]
    exact h.declaredFunctions_declareFunction hs hd
  refine ⟨fun s k hk => ?_, fun s => ?_, ?_, fun f hf hb b hbmem => ?_⟩
  · rw [hof, List.mem_append] at hk
    rcases hk with hk | hk
    · obtain ⟨f, hf, hb⟩ := h.listed s k hk
      exact ⟨f, hold k f hf, hb⟩
    · split at hk
      · rw [List.mem_singleton] at hk
        subst hk
        exact ⟨new, hnewId, by rw [hnew]⟩
      · cases hk
  · rw [hlist]
    split
    · next hsc =>
      subst hsc
      rw [List.map_append, List.map_singleton]
      refine List.nodup_append_comm.mp (List.nodup_cons.mpr ⟨fun hmem => ?_, h.distinct s⟩)
      obtain ⟨f, hf, hfs⟩ := List.mem_map.mp hmem
      have hnone := (List.findSome?_eq_none_iff.mp hdeclared) s (mem_ancestors_self t s)
      rw [List.find?_eq_none] at hnone
      exact hnone f hf ((f.hasSignature_iff _ _).mpr (hfs.trans hsig))
    · rw [List.append_nil]
      exact h.distinct s
  · rw [← h.builtins, builtinList, builtinList, hfun, Array.toList_push, List.filter_append]
    simp [hnew]
  · rw [hfun, Array.mem_push] at hf
    rcases hf with hf | rfl
    · exact h.apart f hf hb b hbmem
    · rw [builtin?, h.builtins, List.find?_eq_none] at hbuiltin
      have hno := hbuiltin b (Array.mem_toList_iff.mpr hbmem)
      rwa [Function.hasSignature_iff, ← hsig] at hno

/-! ### Records of assignment -/

/-- Records of assignment are no part of what `Named` speaks of. -/
theorem Named.modify {t t' : Table} (h : t.Named) {id : Nat} {f : Identifier → Identifier}
    (hscopes : t'.scopes = t.scopes) (ht : t'.identifiers = t.identifiers.modify id f)
    (hf : ∀ i, ∃ a, f i = { i with assigned := a }) : t'.Named := by
  have hlevel : ∀ s, t'.level s = t.level s := fun s => by rw [level, level, hscopes]
  have hof : ∀ s, t'.identifiersOf s = t.identifiersOf s := fun s => by
    rw [identifiersOf, identifiersOf, hscopes]
  have hget : ∀ (k : Nat) i', t'.identifiers[k]? = some i' ↔ ∃ i a,
      t.identifiers[k]? = some i ∧ i' = { i with assigned := a } ∧
        i' = if id = k then f i else i := by
    intro k i'
    rw [ht, Array.getElem?_modify]
    by_cases hk : id = k
    · simp only [if_pos hk, Option.map_eq_some_iff]
      constructor
      · rintro ⟨i, hi, rfl⟩
        obtain ⟨a, ha⟩ := hf i
        exact ⟨i, a, hi, ha, rfl⟩
      · rintro ⟨i, _, hi, _, rfl⟩
        exact ⟨i, hi, rfl⟩
    · simp only [if_neg hk]
      constructor
      · intro hi
        exact ⟨i', i'.assigned, hi, rfl, rfl⟩
      · rintro ⟨i, _, hi, _, rfl⟩
        exact hi
  refine ⟨fun k i' hi' => ?_, fun s x k => ?_, fun s => ?_⟩
  · obtain ⟨i, a, hi, rfl, _⟩ := (hget k i').mp hi'
    rw [hscopes, hlevel]
    exact h.identifier k i hi
  · rw [hof, h.listed]
    constructor
    · rintro ⟨i, hi, hx, hs⟩
      obtain ⟨a, ha⟩ : ∃ a, (if id = k then f i else i) = { i with assigned := a } := by
        split
        · exact hf i
        · exact ⟨i.assigned, rfl⟩
      exact ⟨_, (hget k _).mpr ⟨i, a, hi, ha, rfl⟩, by rw [ha]; exact hx, by rw [ha]; exact hs⟩
    · rintro ⟨i', hi', hx, hs⟩
      obtain ⟨i, a, hi, rfl, _⟩ := (hget k i').mp hi'
      exact ⟨i, hi, hx, hs⟩
  · rw [hof]
    exact h.nodup s

theorem Named.markEverywhere {t : Table} (h : t.Named) (id : Nat) :
    (t.markEverywhere id).Named := by
  have hids : (t.markEverywhere id).identifiers =
      t.identifiers.modify id fun i => { i with assigned := .everywhere } := rfl
  exact h.modify rfl hids fun _ => ⟨_, rfl⟩

theorem Named.markInBlock {t : Table} (h : t.Named) (id block : Nat) :
    (t.markInBlock id block).Named := by
  obtain ⟨record, hids, hrecord⟩ : ∃ record : Identifier → Identifier,
      (t.markInBlock id block).identifiers = t.identifiers.modify id record ∧
        ∀ i, ∃ assigned, record i = { i with assigned } := by
    unfold Table.markInBlock
    dsimp only
    exact ⟨_, rfl, fun _ => ⟨_, rfl⟩⟩
  exact h.modify rfl hids hrecord

theorem Tree.of_scopes {t t' : Table} (h : t.Tree) (hscopes : t'.scopes = t.scopes) : t'.Tree :=
  h.congr (by rw [hscopes]) (fun s => by rw [parent?, hscopes, parent?])
    (fun s => by rw [level, hscopes, level])
    fun s => by rw [Table.children, hscopes, Table.children]

theorem Callable.of_scopes {t t' : Table} (h : t.Callable) (hscopes : t'.scopes = t.scopes)
    (hfunctions : t'.functions = t.functions) : t'.Callable :=
  h.congr hfunctions fun s => by rw [functionsOf, hscopes, functionsOf]

/-! ### Every reachable table -/

/-- What a table keeps over a request, whether it grants the request or refuses it. -/
theorem keeps_after {t : Table} (h : t.Tree ∧ t.Named ∧ t.Callable) (r : Request)
    (hr : t.knows r = true) : (t.after r).Tree ∧ (t.after r).Named ∧ (t.after r).Callable := by
  obtain ⟨htree, hnamed, hcallable⟩ := h
  have hmark : ∀ {t' : Table}, t'.scopes = t.scopes → t'.functions = t.functions → t'.Named →
      t'.Tree ∧ t'.Named ∧ t'.Callable := by
    intro t' hscopes hfunctions hnamed'
    exact ⟨htree.of_scopes hscopes, hnamed', hcallable.of_scopes hscopes hfunctions⟩
  cases r with
  | child parent =>
    exact ⟨htree.child (of_decide_eq_true hr), hnamed.child parent, hcallable.child parent⟩
  | identifier scope name ty =>
    rw [after]
    cases hd : t.declareIdentifier? scope name ty with
    | none => exact ⟨htree, hnamed, hcallable⟩
    | some r =>
      refine ⟨htree.declareIdentifier hd, ?_, hcallable.declareIdentifier hd⟩
      exact hnamed.declareIdentifier (of_decide_eq_true hr) hd
  | function scope name returnType arguments =>
    rw [after]
    cases hd : t.declareFunction? scope name returnType arguments with
    | none => exact ⟨htree, hnamed, hcallable⟩
    | some r =>
      refine ⟨htree.declareFunction hd, hnamed.declareFunction hd, ?_⟩
      exact hcallable.declareFunction (of_decide_eq_true hr) hd
  | markEverywhere id => exact hmark rfl rfl (hnamed.markEverywhere id)
  | markInBlock id block => exact hmark rfl rfl (hnamed.markInBlock id block)
  | markAssigned id block =>
    rw [after, markAssigned]
    split
    · exact hmark rfl rfl (hnamed.markEverywhere id)
    · exact hmark rfl rfl (hnamed.markInBlock id block)

theorem Reachable.keeps {t : Table} (h : t.Reachable) : t.Tree ∧ t.Named ∧ t.Callable := by
  induction h with
  | initial => exact ⟨tree_initial, named_initial, callable_initial⟩
  | after _ r hr ih => exact keeps_after ih r hr

/-! ### The way to the root -/

/-- The way from a scope ends at the root after as many scopes as its level says, however far one
would follow it. -/
structure Rooted (t : Table) : Prop where
  walk : ∀ s < t.scopes.size, ∀ fuel, t.ancestorsUpTo fuel s = (t.ancestors s).take fuel
  last : ∀ s < t.scopes.size, (t.ancestors s).getLast? = some root
  length : ∀ s < t.scopes.size, (t.ancestors s).length = t.level s

theorem Tree.exists_way {t : Table} (h : t.Tree) (s : Nat) (hs : s < t.scopes.size) :
    ∃ way : List Nat, (∀ fuel, t.ancestorsUpTo fuel s = way.take fuel) ∧
      way.getLast? = some Table.root ∧ way.length = t.level s ∧ way.length ≤ s + 1 := by
  induction s using Nat.strongRecOn with
  | ind s ih =>
    by_cases hroot : s = Table.root
    · obtain ⟨_, hnone, hlevel⟩ := h.root
      rw [hroot]
      refine ⟨[Table.root], fun fuel => ?_, rfl, hlevel.symm, by simp⟩
      cases fuel with
      | zero => rfl
      | succ fuel => rw [ancestorsUpTo, hnone, List.take_succ_cons, List.take_nil]
    · obtain ⟨p, hp, hsp, hlevel⟩ := h.parent s hs hroot
      obtain ⟨way, hway, hlast, hlen, hle⟩ := ih p hp (by omega)
      refine ⟨s :: way, fun fuel => ?_, ?_, ?_, ?_⟩
      · cases fuel with
        | zero => rfl
        | succ fuel =>
          rw [ancestorsUpTo, hsp, List.take_succ_cons]
          exact congrArg (s :: ·) (hway fuel)
      · rw [List.getLast?_cons, hlast]
        rfl
      · rw [List.length_cons, hlen, hlevel]
      · rw [List.length_cons]
        omega

theorem Tree.rooted {t : Table} (h : t.Tree) : t.Rooted := by
  have hway : ∀ s < t.scopes.size, (∀ fuel, t.ancestorsUpTo fuel s = (t.ancestors s).take fuel) ∧
      (t.ancestors s).getLast? = some Table.root ∧ (t.ancestors s).length = t.level s := by
    intro s hs
    obtain ⟨way, hwalk, hlast, hlen, hle⟩ := h.exists_way s hs
    have heq : t.ancestors s = way := by
      unfold ancestors
      rw [hwalk, List.take_of_length_le hle]
    rw [heq]
    exact ⟨hwalk, hlast, hlen⟩
  exact ⟨fun s hs => (hway s hs).1, fun s hs => (hway s hs).2.1, fun s hs => (hway s hs).2.2⟩

/-! ### What a name means -/

/-- A name means its declaration in the nearest scope that has one, and a name with a number of
arguments the nearest function declared so, or else the built-in one; no declaration hides a
built-in function. -/
structure NearestFirst (t : Table) : Prop where
  identifier : ∀ s x i, t.resolveIdentifier? s x = some i ↔
    i ∈ t.identifiers ∧ i.name = x ∧ ∃ inner outer, t.ancestors s = inner ++ i.scope :: outer ∧
      ∀ j ∈ t.identifiers, j.name = x → j.scope ∉ inner
  function : ∀ s name arity f, t.resolveFunction? s name arity = some f ↔
    (∃ inner scope outer, t.ancestors s = inner ++ scope :: outer ∧
      (f ∈ t.declaredFunctions scope ∧ f.signature = (name, arity)) ∧
      ∀ near ∈ inner, ∀ g ∈ t.declaredFunctions near, g.signature ≠ (name, arity)) ∨
    (∀ scope ∈ t.ancestors s, ∀ g ∈ t.declaredFunctions scope, g.signature ≠ (name, arity)) ∧
      f ∈ builtinFunctions ∧ f.signature = (name, arity)
  builtin : ∀ f ∈ builtinFunctions, ∀ s, t.resolveFunction? s f.name f.arity = some f

theorem Named.declared?_eq_some_iff {t : Table} (h : t.Named) {s k : Nat} {x : String} :
    t.declared? s x = some k ↔ ∃ i, t.identifiers[k]? = some i ∧ i.name = x ∧ i.scope = s := by
  rw [declared?_eq_lookup, ← h.listed]
  constructor
  · intro hk
    obtain ⟨before, after, heq, _⟩ := List.lookup_eq_some_iff.mp hk
    rw [heq]
    simp
  · intro hmem
    obtain ⟨before, after, heq⟩ := List.append_of_mem hmem
    refine List.lookup_eq_some_iff.mpr ⟨before, after, heq, fun q hq => ?_⟩
    have hnd := h.nodup s
    rw [heq, List.map_append, List.map_cons, List.nodup_middle, List.nodup_cons] at hnd
    have hne : x ≠ q.1 := by
      intro hxq
      exact hnd.1 (List.mem_append_left _ (List.mem_map.mpr ⟨q, hq, hxq.symm⟩))
    simpa using hne

/-- A scope declares no such name exactly when no identifier of the name belongs to it. -/
theorem Named.declared?_eq_none_iff {t : Table} (h : t.Named) {s : Nat} {x : String} :
    t.declared? s x = none ↔ ∀ i ∈ t.identifiers, i.name = x → i.scope ≠ s := by
  constructor
  · intro hnone i hi hx hs
    obtain ⟨k, hk, hki⟩ := Array.mem_iff_getElem.mp hi
    have hsome := h.declared?_eq_some_iff.mpr ⟨i, Array.getElem?_eq_some_iff.mpr ⟨hk, hki⟩, hx, hs⟩
    rw [hnone] at hsome
    cases hsome
  · intro hno
    rw [Option.eq_none_iff_forall_not_mem]
    intro k hk
    obtain ⟨i, hi, hx, hs⟩ := h.declared?_eq_some_iff.mp hk
    exact hno i (Array.mem_of_getElem? hi) hx hs

theorem Named.resolveIdentifier?_eq_some_iff {t : Table} (h : t.Named) (s : Nat) (x : String)
    (i : Identifier) : t.resolveIdentifier? s x = some i ↔
      i ∈ t.identifiers ∧ i.name = x ∧ ∃ inner outer, t.ancestors s = inner ++ i.scope :: outer ∧
        ∀ j ∈ t.identifiers, j.name = x → j.scope ∉ inner := by
  unfold resolveIdentifier?
  rw [Option.bind_eq_some_iff]
  constructor
  · rintro ⟨k, hk, hi⟩
    obtain ⟨inner, scope, outer, heq, hscope, hinner⟩ := List.findSome?_eq_some_iff.mp hk
    obtain ⟨j, hj, hx, hs⟩ := h.declared?_eq_some_iff.mp hscope
    cases hi.symm.trans hj
    refine ⟨Array.mem_of_getElem? hi, hx, inner, outer, by rw [hs]; exact heq, ?_⟩
    intro j hj hjx hmem
    exact h.declared?_eq_none_iff.mp (hinner _ hmem) j hj hjx rfl
  · rintro ⟨hi, hx, inner, outer, heq, hinner⟩
    obtain ⟨k, hk, hki⟩ := Array.mem_iff_getElem.mp hi
    have hget : t.identifiers[k]? = some i := Array.getElem?_eq_some_iff.mpr ⟨hk, hki⟩
    refine ⟨k, List.findSome?_eq_some_iff.mpr ⟨inner, i.scope, outer, heq, ?_, fun near hn => ?_⟩,
      hget⟩
    · exact h.declared?_eq_some_iff.mpr ⟨i, hget, hx, rfl⟩
    · exact h.declared?_eq_none_iff.mpr fun j hj hjx hjs => hinner j hj hjx (hjs ▸ hn)

/-- Among functions that differ in signature a search finds the one that there is. -/
theorem find?_hasSignature_eq_some_iff {l : List Function}
    (hnd : (l.map Function.signature).Nodup) {name : String} {arity : Nat} {f : Function} :
    l.find? (·.hasSignature name arity) = some f ↔ f ∈ l ∧ f.signature = (name, arity) := by
  constructor
  · intro hf
    have hsig : f.hasSignature name arity = true := by simpa using List.find?_some hf
    exact ⟨List.mem_of_find?_eq_some hf, (f.hasSignature_iff name arity).mp hsig⟩
  · rintro ⟨hf, hsig⟩
    cases hg : l.find? (·.hasSignature name arity) with
    | none => exact absurd ((f.hasSignature_iff _ _).mpr hsig) (List.find?_eq_none.mp hg f hf)
    | some g =>
      have hhas : g.hasSignature name arity = true := by simpa using List.find?_some hg
      have hgs : g.signature = (name, arity) := (g.hasSignature_iff name arity).mp hhas
      have hgf : g = f :=
        List.inj_on_of_nodup_map hnd (List.mem_of_find?_eq_some hg) hf (hgs.trans hsig.symm)
      rw [hgf]

theorem find?_hasSignature_eq_none_iff {l : List Function} {name : String} {arity : Nat} :
    l.find? (·.hasSignature name arity) = none ↔ ∀ g ∈ l, g.signature ≠ (name, arity) := by
  simp only [List.find?_eq_none, Function.hasSignature_iff, ne_eq]

theorem signatures_builtinFunctions_nodup :
    (builtinFunctions.toList.map Function.signature).Nodup := by decide

theorem Callable.builtin?_eq_some_iff {t : Table} (h : t.Callable) {name : String} {arity : Nat}
    {f : Function} : t.builtin? name arity = some f ↔
      f ∈ builtinFunctions ∧ f.signature = (name, arity) := by
  unfold builtin?
  rw [h.builtins, find?_hasSignature_eq_some_iff signatures_builtinFunctions_nodup,
    Array.mem_toList_iff]

theorem resolveDeclared?_eq_none_iff {t : Table} {s : Nat} {name : String} {arity : Nat} :
    t.resolveDeclared? s name arity = none ↔
      ∀ scope ∈ t.ancestors s, ∀ g ∈ t.declaredFunctions scope, g.signature ≠ (name, arity) := by
  unfold resolveDeclared?
  simp only [List.findSome?_eq_none_iff, find?_hasSignature_eq_none_iff]

theorem Callable.resolveDeclared?_eq_some_iff {t : Table} (h : t.Callable) {s : Nat}
    {name : String} {arity : Nat} {f : Function} : t.resolveDeclared? s name arity = some f ↔
      ∃ inner scope outer, t.ancestors s = inner ++ scope :: outer ∧
        (f ∈ t.declaredFunctions scope ∧ f.signature = (name, arity)) ∧
        ∀ near ∈ inner, ∀ g ∈ t.declaredFunctions near, g.signature ≠ (name, arity) := by
  unfold resolveDeclared?
  simp only [List.findSome?_eq_some_iff, find?_hasSignature_eq_none_iff,
    find?_hasSignature_eq_some_iff (h.distinct _)]

theorem Callable.resolveDeclared?_builtin {t : Table} (h : t.Callable) {b : Function}
    (hb : b ∈ builtinFunctions) (s : Nat) : t.resolveDeclared? s b.name b.arity = none := by
  refine resolveDeclared?_eq_none_iff.mpr fun scope _ g hg hsig => ?_
  obtain ⟨k, hk, hget⟩ := List.mem_filterMap.mp hg
  obtain ⟨g', hg', hbuiltin⟩ := h.listed scope k hk
  cases hget.symm.trans hg'
  exact h.apart g (Array.mem_of_getElem? hget) hbuiltin b hb hsig.symm

theorem Callable.resolveFunction?_eq_some_iff {t : Table} (h : t.Callable) (s : Nat)
    (name : String) (arity : Nat) (f : Function) : t.resolveFunction? s name arity = some f ↔
      t.resolveDeclared? s name arity = some f ∨
        t.resolveDeclared? s name arity = none ∧ f ∈ builtinFunctions ∧
          f.signature = (name, arity) := by
  unfold resolveFunction?
  rw [Option.or_eq_some_iff, h.builtin?_eq_some_iff]

theorem nearestFirst {t : Table} (hn : t.Named) (hc : t.Callable) : t.NearestFirst := by
  refine ⟨hn.resolveIdentifier?_eq_some_iff, fun s name arity f => ?_, fun f hf s => ?_⟩
  · rw [hc.resolveFunction?_eq_some_iff, hc.resolveDeclared?_eq_some_iff,
      resolveDeclared?_eq_none_iff]
  · rw [hc.resolveFunction?_eq_some_iff]
    exact .inr ⟨hc.resolveDeclared?_builtin hf s, hf, rfl⟩

/-- **Invariant of symbol tables**: whatever scopes, declarations and records of assignment a table
has come from, its scopes are a tree whose ways lead to the root, its identifiers and functions
stand where they belong, and names mean their nearest declarations. -/
theorem Reachable.coherent {t : Table} (h : t.Reachable) :
    t.Tree ∧ t.Rooted ∧ t.Named ∧ t.Callable ∧ t.NearestFirst := by
  obtain ⟨htree, hnamed, hcallable⟩ := h.keeps
  exact ⟨htree, htree.rooted, hnamed, hcallable, nearestFirst hnamed hcallable⟩

/-- Two nested blocks where the inner one declares `x` and `f` before the outer one does, and where
`f` with the signature of the inner one and `print` are refused. -/
def lateOuter : Table :=
  [Request.child root, .child 1, .identifier 2 "x" .integer, .function 2 "f" .void [],
    .identifier 1 "x" .string, .function 1 "f" .integer [], .function 2 "f" .float [],
    .function 2 "print" .void [⟨"value", .string, 1⟩], .markAssigned 0 1].foldl after initial

theorem lateOuter_coherent :
    lateOuter.Reachable ∧ (lateOuter.resolveIdentifier? 2 "x").map (·.ty) = some .integer ∧
      (lateOuter.resolveFunction? 1 "f" 0).map (·.returnType) = some .integer ∧
      (lateOuter.Tree ∧ lateOuter.Rooted ∧ lateOuter.Named ∧ lateOuter.Callable ∧
        lateOuter.NearestFirst) := by
  have h : lateOuter.Reachable := by
    unfold lateOuter
    simp only [List.foldl_cons, List.foldl_nil]
    refine .after (.after (.after (.after (.after (.after (.after (.after (.after .initial
      _ ?_) _ ?_) _ ?_) _ ?_) _ ?_) _ ?_) _ ?_) _ ?_) _ ?_
    all_goals decide +kernel
  exact ⟨h, by decide +kernel, by decide +kernel, h.coherent⟩

end Table

end Quill.Scope
