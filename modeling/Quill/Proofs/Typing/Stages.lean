import Quill.Proofs.Typing.Program

/-! # The stages of checking a program

A program is checked in three stages: its functions are declared in the root scope, their bodies are
checked one after the other, and at last the table is asked for the entry function.  When nothing is
reported, the root scope offers the functions of the program at each stage. -/

namespace Quill.Typing

open Scope (Table)

/-- The first stage: the functions with the success of their declarations, and the state. -/
def declarations (p : Program) : List (FunctionDecl × Bool) × State :=
  declareFunctions p.source ⟨.initial, .empty⟩ [] p.functions

/-- The second stage: the annotated functions, and the state. -/
def checkedBodies (p : Program) : List FunctionDecl × State :=
  checkBodies p.source (declarations p).2 [] (declarations p).1

/-- The last stage: the table must have an entry function. -/
def askEntry (file : Option String) (st : State) : State :=
  if hasEntry st.table then st
  else { st with log := addFinding file st.log .missingEntry .dummy }

theorem checkFresh_eq (p : Program) :
    checkFresh p = ({ p with functions := (checkedBodies p).1 }, askEntry p.source
      (checkedBodies p).2) := rfl

/-- Declaring functions looks at their headers only: functions with other bodies are declared in the
same table, with the same reports and the same success. -/
theorem declareFunctions_annotates {file : Option String} {R : FunctionDecl → FunctionDecl → Prop}
    (hR : ∀ f f', R f f' → Annotates f f') {fs fs' : List FunctionDecl}
    (h : List.Forall₂ R fs fs') :
    ∀ {st : State} {done done' : List (FunctionDecl × Bool)},
      List.Forall₂ (fun d d' => R d.1 d'.1 ∧ d.2 = d'.2) done done' →
        (declareFunctions file st done fs).2 = (declareFunctions file st done' fs').2 ∧
          List.Forall₂ (fun d d' => R d.1 d'.1 ∧ d.2 = d'.2)
            (declareFunctions file st done fs).1 (declareFunctions file st done' fs').1 := by
  induction h with
  | nil => exact fun hdone => ⟨rfl, List.rel_reverse hdone⟩
  | @cons f f' fs fs' hf _ ih =>
    intro st done done' hdone
    have hsame : declareFunction file st f' = declareFunction file st f := by
      obtain ⟨body, rfl⟩ := hR f f' hf
      rfl
    rw [declareFunctions, declareFunctions, hsame]
    exact ih (.cons ⟨hf, rfl⟩ hdone)

theorem map_fst_declareFunctions (file : Option String) :
    ∀ (fs : List FunctionDecl) (st : State) (done : List (FunctionDecl × Bool)),
      (declareFunctions file st done fs).1.map Prod.fst = done.reverse.map Prod.fst ++ fs := by
  intro fs
  induction fs with
  | nil => simp [declareFunctions]
  | cons f fs ih =>
    intro st done
    rw [declareFunctions]
    dsimp only
    rw [ih]
    simp

theorem map_fst_declarations (p : Program) : (declarations p).1.map Prod.fst = p.functions :=
  map_fst_declareFunctions p.source p.functions ⟨.initial, .empty⟩ []

theorem declarations_annotates {R : FunctionDecl → FunctionDecl → Prop}
    (hR : ∀ f f', R f f' → Annotates f f') {p q : Program} (hsource : p.source = q.source)
    (h : List.Forall₂ R p.functions q.functions) :
    (declarations p).2 = (declarations q).2 ∧
      List.Forall₂ (fun d d' => R d.1 d'.1 ∧ d.2 = d'.2) (declarations p).1 (declarations q).1 := by
  rw [declarations, declarations, hsource]
  exact declareFunctions_annotates hR h .nil

/-- If every function of a program could be declared, then with other bodies too. -/
theorem declarations_of_annotates {p q : Program} (hsource : p.source = q.source)
    (h : List.Forall₂ Annotates p.functions q.functions)
    (hall : (declarations p).1 = p.functions.map (·, true)) :
    declarations q = (q.functions.map (·, true), (declarations p).2) := by
  obtain ⟨hstate, hdecl⟩ := declarations_annotates (fun _ _ hf => hf) hsource h
  refine Prod.ext ?_ hstate.symm
  dsimp only
  rw [← map_fst_declarations q, List.map_map]
  refine (List.map_id _).symm.trans (List.map_congr_left fun d hd => Prod.ext rfl ?_)
  obtain ⟨d', hd', _, heq⟩ := exists_of_forall₂_right hdecl hd
  rw [hall] at hd'
  obtain ⟨_, _, rfl⟩ := List.mem_map.mp hd'
  exact heq.symm

/-- Checking bodies, with reports or without, leaves the root scope. -/
theorem checkBodies_stands {file : Option String} {gs : List FunctionDecl} :
    ∀ (fs : List (FunctionDecl × Bool)) (st : State) (done : List FunctionDecl),
      Stands st.table Table.root gs [] →
        Stands (checkBodies file st done fs).2.table Table.root gs []
  | [], _, _, h => h
  | (f, declared) :: fs, st, done, h => by
    unfold checkBodies
    split
    · exact checkBodies_stands fs _ _ (checkBody_sound st h).1
    · exact checkBodies_stands fs st _ h

/-- What holds between the stages of a check without reports. -/
structure Staged (p : Program) (before : List (FunctionDecl × Bool) × State) : Prop where
  declares : declareFunctions p.source ⟨.initial, .empty⟩ [] p.functions = before
  declared : Declared before.2.table p.functions
  functions : before.1 = p.functions.map (·, true)
  clean : Clean (checkBodies p.source before.2 [] before.1).2.log
  entry : hasEntry (checkBodies p.source before.2 [] before.1).2.table = true

theorem checkFresh_staged {p : Program} (hc : Clean (checkFresh p).2.log) :
    Staged p (declareFunctions p.source ⟨.initial, .empty⟩ [] p.functions) := by
  unfold checkFresh checkProgram at hc
  dsimp only at hc
  generalize hD : declareFunctions p.source ⟨.initial, .empty⟩ [] p.functions = D at hc ⊢
  obtain ⟨hentry, hclean⟩ : hasEntry (checkBodies p.source D.2 [] D.1).2.table = true ∧
      Clean (checkBodies p.source D.2 [] D.1).2.log := by
    split at hc
    · next hentry => exact ⟨hentry, hc⟩
    · exact absurd hc (not_clean_addFinding _ _ _ _)
  obtain ⟨gs, hgs⟩ : ∃ gs, Declared D.2.table gs := by
    rw [← hD]
    exact declareFunctions_declared p.functions declared_initial
  have hclean' : Clean D.2.log := (checkBodies_sound D.2 hgs.stands hclean).1
  rw [← hD] at hclean'
  obtain ⟨_, hdecl, hlist, _⟩ := declareFunctions_sound ⟨.initial, .empty⟩ declared_initial hclean'
  rw [hD] at hdecl hlist
  exact ⟨hD, hdecl, hlist, hclean, hentry⟩

/-- A table that has an entry function offers the program's own. -/
theorem Stands.findFunction?_entry {t : Table} {fs : List FunctionDecl}
    (h : Stands t Table.root fs []) (hentry : hasEntry t = true) :
    ∃ f, findFunction? fs entryName 0 = some f := by
  have hsig := h.offers.resolveFunction? h.formed h.tracks entryName 0
  unfold hasEntry at hentry
  cases hres : t.resolveFunction? Table.root entryName 0 with
  | none =>
    rw [hres] at hentry
    cases hentry
  | some F =>
    rw [hres] at hentry hsig
    cases hfind : findFunction? fs entryName 0 with
    | some f => exact ⟨f, rfl⟩
    | none =>
      rw [signature?, hfind, Option.map_none, Option.none_or, Option.map_some, builtinSignature?]
        at hsig
      obtain ⟨b, _, hb⟩ := Option.map_eq_some_iff.mp hsig.symm
      have hbuiltin : F.isBuiltin = true := (congrArg Signature.isBuiltin hb).symm
      simp [hbuiltin] at hentry

/-- A program that is checked without a report has a function `main` without arguments. -/
theorem checkFresh_findFunction?_entry {p : Program} (hc : Clean (checkFresh p).2.log) :
    ∃ f, findFunction? p.functions entryName 0 = some f := by
  have hst := checkFresh_staged hc
  exact (checkBodies_stands _ _ _ hst.declared.stands).findFunction?_entry hst.entry

end Quill.Typing
