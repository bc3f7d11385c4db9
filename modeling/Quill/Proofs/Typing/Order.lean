import Mathlib.Data.List.Nodup
import Quill.Proofs.Report.Log
import Quill.Proofs.Typing.Appends
import Quill.Proofs.Typing.Determined

/-! # The order of the functions does not matter to checking

Every function is declared before a body is checked, so when no two functions have the same name and
number of arguments, it does not matter which of them comes first: each is declared or not for
itself (`declareFunctions_distinct`), each body sees the same functions, and what is reported on one
function has nothing to do with the others (`checkBodies_alone`).  So a program with its functions in
another order has the same reports in another order, and its annotated functions are the same
(`checkFresh_perm`). -/

namespace Quill.Typing

open Report (Log Finding)
open Scope (Table)

/-! ### Functions by name and number of arguments -/

theorem findFunction?_eq_some_iff {fs : List FunctionDecl}
    (hn : (fs.map fun f => (f.name, f.arity)).Nodup) {name : String} {arity : Nat}
    {f : FunctionDecl} :
    findFunction? fs name arity = some f ↔ f ∈ fs ∧ f.name = name ∧ f.arity = arity := by
  constructor
  · intro h
    exact ⟨List.mem_of_find?_eq_some h, by simpa using List.find?_some h⟩
  · rintro ⟨hf, rfl, rfl⟩
    cases h : findFunction? fs f.name f.arity with
    | none => exact absurd (List.find?_eq_none.mp h f hf) (by simp)
    | some g =>
      have hkey : g.name = f.name ∧ g.arity = f.arity := by simpa using List.find?_some h
      exact congrArg some (List.inj_on_of_nodup_map hn (List.mem_of_find?_eq_some h) hf
        (Prod.ext hkey.1 hkey.2))

theorem findFunction?_perm {fs gs : List FunctionDecl} (h : fs.Perm gs)
    (hn : (fs.map fun f => (f.name, f.arity)).Nodup) (name : String) (arity : Nat) :
    findFunction? fs name arity = findFunction? gs name arity := by
  have hn' : (gs.map fun f => (f.name, f.arity)).Nodup := (h.map _).nodup_iff.mp hn
  refine Option.ext fun f => ?_
  rw [findFunction?_eq_some_iff hn, findFunction?_eq_some_iff hn', h.mem_iff]

theorem signature?_perm {fs gs : List FunctionDecl} (h : fs.Perm gs)
    (hn : (fs.map fun f => (f.name, f.arity)).Nodup) (name : String) (arity : Nat) :
    signature? fs name arity = signature? gs name arity := by
  rw [signature?, signature?, findFunction?_perm h hn]

theorem Stands.of_signature? {t : Table} {scope : Nat} {fs gs : List FunctionDecl} {Γ : Ctx}
    (h : Stands t scope fs Γ) (hsig : ∀ name arity, signature? fs name arity =
      signature? gs name arity) : Stands t scope gs Γ :=
  ⟨h.formed, h.tracks, fun name arity => (h.offers name arity).trans (hsig name arity)⟩

/-! ### Declarations -/

/-- No built-in function stands in the way of the function. -/
def declarable (f : FunctionDecl) : Bool := (builtinSignature? f.name f.arity).isNone

/-- The reports on the parameters of a function. -/
def paramReports (c : Setting) (params : List Param) : Log :=
  (checkParams c ⟨.initial, .empty⟩ params).log

/-- The reports on the declaration of a function, if no other function stands in its way. -/
def declarationReports (file : Option String) (f : FunctionDecl) : Log :=
  let log := paramReports (settingOf file f) f.params
  if declarable f then log else addFinding file log (.duplicateFunction f.name f.arity) f.span

theorem log_checkParams (c : Setting) (params : List Param) :
    ∀ st : State, (checkParams c st params).log = st.log ++ paramReports c params := by
  unfold paramReports checkParams
  induction params with
  | nil => exact fun st => (Log.append_empty st.log).symm
  | cons p params ih =>
    intro st
    rw [List.foldl_cons, List.foldl_cons]
    split
    · exact ih st
    · rw [ih, ih (State.add _ _ _ _), ← Log.append_assoc]
      congr 1
      exact (congrArg (addFinding c.file · _ _) (Log.append_empty st.log).symm).trans
        (addFinding_append _ _ _ _ _)

/-- A function can be declared exactly if a call of its name and number of arguments means
nothing. -/
theorem Declared.declareFunction?_isSome {t : Table} {fs : List FunctionDecl} (h : Declared t fs)
    (f : FunctionDecl) :
    (t.declareFunction? Table.root f.name f.returnType
      (Scope.numbered (f.params.map fun p => (p.name, p.ty)))).isSome =
      (signature? fs f.name f.arity).isNone := by
  have hlen : (Scope.numbered (f.params.map fun p => (p.name, p.ty))).length = f.arity := by
    simp [Scope.numbered, FunctionDecl.arity]
  have hsig := h.stands.offers.resolveFunction? h.formed h.stands.tracks f.name f.arity
  rw [← hsig, Option.isNone_map, Table.resolveFunction?]
  unfold Table.declareFunction?
  dsimp only
  rw [hlen]
  cases t.builtin? f.name f.arity <;> cases t.resolveDeclared? Table.root f.name f.arity <;> rfl

theorem signature?_of_notMem {fs : List FunctionDecl} {f : FunctionDecl}
    (hf : (f.name, f.arity) ∉ fs.map fun f => (f.name, f.arity)) :
    signature? fs f.name f.arity = builtinSignature? f.name f.arity := by
  have hnone : findFunction? fs f.name f.arity = none := by
    refine List.find?_eq_none.mpr fun g hg heq => hf ?_
    have hkey : g.name = f.name ∧ g.arity = f.arity := by simpa using heq
    exact List.mem_map.mpr ⟨g, hg, Prod.ext hkey.1 hkey.2⟩
  rw [signature?, hnone]
  rfl

/-- A function that no other function stands in the way of is declared, or not, for itself. -/
theorem Declared.declareFunction {st : State} {fs : List FunctionDecl} (h : Declared st.table fs)
    (file : Option String) {f : FunctionDecl}
    (hf : (f.name, f.arity) ∉ fs.map fun f => (f.name, f.arity)) :
    (Typing.declareFunction file st f).1 = declarable f ∧
      Declared (Typing.declareFunction file st f).2.table (fs ++ [f].filter declarable) ∧
      (Typing.declareFunction file st f).2.log = st.log ++ declarationReports file f := by
  have htab := (checkParams_sound (settingOf file f) f.params st).1
  have hlog := log_checkParams (settingOf file f) f.params st
  have hsome := h.declareFunction?_isSome f
  rw [signature?_of_notMem hf] at hsome
  have hdecl : declarable f = (builtinSignature? f.name f.arity).isNone := rfl
  unfold Typing.declareFunction declarationReports
  dsimp only
  rw [htab, List.filter_singleton, hdecl, ← hsome]
  cases hd : st.table.declareFunction? Table.root f.name f.returnType
      (Scope.numbered (f.params.map fun p => (p.name, p.ty))) with
  | none =>
    refine ⟨rfl, ?_, ?_⟩
    · dsimp only
      simpa [State.add, htab] using h
    · exact (congrArg (addFinding file · _ _) hlog).trans (addFinding_append _ _ _ _ _)
  | some r => exact ⟨rfl, (h.declareFunction? hd).1, hlog⟩

/-- Functions that are told apart by name and number of arguments are declared each for itself. -/
theorem declareFunctions_distinct (file : Option String) :
    ∀ (fs : List FunctionDecl) {before : List FunctionDecl} (st : State)
      (done : List (FunctionDecl × Bool)), Declared st.table before →
      ((before ++ fs).map fun f => (f.name, f.arity)).Nodup →
        (declareFunctions file st done fs).1 =
            done.reverse ++ fs.map (fun f => (f, declarable f)) ∧
          Declared (declareFunctions file st done fs).2.table (before ++ fs.filter declarable) ∧
          (declareFunctions file st done fs).2.log =
            st.log ++ Log.joined (fs.map (declarationReports file))
  | [], before, st, done, h, _ => by
    simpa [declareFunctions, Log.joined] using h
  | f :: fs, before, st, done, h, hn => by
    have hf : (f.name, f.arity) ∉ before.map fun f => (f.name, f.arity) := by
      simp only [List.map_append, List.map_cons, List.nodup_middle, List.nodup_cons,
        List.mem_append, not_or] at hn
      exact hn.1.1
    obtain ⟨hok, hdecl, hlog⟩ := h.declareFunction file hf
    have hsub : (before ++ [f].filter declarable ++ fs).Sublist (before ++ f :: fs) := by
      rw [List.append_cons]
      exact (List.filter_sublist.append_left before).append_right fs
    obtain ⟨hfirst, hdecl', hlog'⟩ := declareFunctions_distinct file fs _
      ((f, (declareFunction file st f).1) :: done) hdecl (hn.sublist (hsub.map _))
    refine ⟨hfirst.trans ?_, ?_, hlog'.trans ?_⟩
    · simp [hok]
    · rw [List.append_assoc, ← List.filter_append] at hdecl'
      exact hdecl'
    · rw [hlog, Log.append_assoc]
      rfl

/-! ### Bodies -/

/-- The check of one function in the table after the declarations. -/
def bodyCheck (file : Option String) (t : Table) (d : FunctionDecl × Bool) : FunctionDecl × Log :=
  if d.2 && !d.1.isExternal then
    ((checkBody file ⟨t, .empty⟩ d.1).1, (checkBody file ⟨t, .empty⟩ d.1).2.log)
  else (d.1, .empty)

/-- Bodies are checked each for itself: what those before have left in the table is out of sight. -/
theorem checkBodies_alone (file : Option String) {t : Table} {gs : List FunctionDecl}
    (ht : Stands t Table.root gs []) :
    ∀ (ds : List (FunctionDecl × Bool)) {st : State} (done : List FunctionDecl),
      Stands st.table Table.root gs [] →
        (checkBodies file st done ds).1 =
            done.reverse ++ ds.map (fun d => (bodyCheck file t d).1) ∧
          (checkBodies file st done ds).2.log =
            st.log ++ Log.joined (ds.map fun d => (bodyCheck file t d).2)
  | [], st, done, _ => by
    simp [checkBodies, Log.joined]
  | (f, declared) :: ds, st, done, hst => by
    rw [List.map_cons, List.map_cons, Log.joined, checkBodies]
    by_cases hcheck : (declared && !f.isExternal) = true
    · have halike : Alike gs [] Table.root Table.root ⟨st.table, .empty⟩ ⟨t, .empty⟩ :=
        ⟨hst, ht, rfl⟩
      obtain ⟨hbody, hafter⟩ := checkBody_congr halike file f
      have hbehind := checkBody_behind file st.log ⟨st.table, .empty⟩ f
      rw [State.behind_empty] at hbehind
      obtain ⟨hfirst, hlog⟩ := checkBodies_alone file ht ds ((checkBody file st f).1 :: done)
        (checkBody_sound st hst).1
      rw [if_pos hcheck, bodyCheck, if_pos hcheck]
      refine ⟨hfirst.trans ?_, hlog.trans ?_⟩
      · rw [hbehind, hbody, List.reverse_cons, List.append_assoc]
        rfl
      · rw [hbehind, State.behind, hafter.log, Log.append_assoc]
    · obtain ⟨hfirst, hlog⟩ := checkBodies_alone file ht ds (f :: done) hst
      rw [if_neg hcheck, bodyCheck, if_neg hcheck]
      refine ⟨hfirst.trans ?_, hlog.trans ?_⟩
      · rw [List.reverse_cons, List.append_assoc]
        rfl
      · rw [Log.empty_append]

/-! ### Programs -/

/-- The report on the entry function, if there is none among the functions. -/
def entryReports (file : Option String) (fs : List FunctionDecl) : Log :=
  match signature? fs entryName 0 with
  | some sig => if sig.isBuiltin then addFinding file .empty .missingEntry .dummy else .empty
  | none => addFinding file .empty .missingEntry .dummy

theorem Stands.log_askEntry {st : State} {fs : List FunctionDecl}
    (h : Stands st.table Table.root fs []) (file : Option String) :
    (askEntry file st).log = st.log ++ entryReports file fs := by
  have hsig := h.offers.resolveFunction? h.formed h.tracks entryName 0
  have hadd : addFinding file st.log .missingEntry .dummy =
      st.log ++ addFinding file .empty .missingEntry .dummy := by
    rw [← addFinding_append, Log.append_empty]
  unfold askEntry hasEntry entryReports
  rw [← hsig]
  cases st.table.resolveFunction? Table.root entryName 0 with
  | none => exact hadd
  | some F =>
    dsimp only [Option.map_some, signatureIn]
    split
    · next hb =>
      rw [if_neg (by simpa using hb), Log.append_empty]
    · next hb =>
      rw [if_pos (by simpa using hb)]
      exact hadd

/-- The reports of a check, function by function, as seen from any table in which the declared
functions stand. -/
theorem checkFresh_alone {p : Program} (hn : (p.functions.map fun f => (f.name, f.arity)).Nodup)
    {t : Table} (ht : Stands t Table.root (p.functions.filter declarable) []) :
    (checkFresh p).1.functions =
        p.functions.map (fun f => (bodyCheck p.source t (f, declarable f)).1) ∧
      (checkFresh p).2.log = Log.joined (p.functions.map (declarationReports p.source)) ++
        Log.joined (p.functions.map fun f => (bodyCheck p.source t (f, declarable f)).2) ++
        entryReports p.source (p.functions.filter declarable) := by
  obtain ⟨hlist, hdecl, hlog⟩ :=
    declareFunctions_distinct p.source p.functions ⟨.initial, .empty⟩ [] declared_initial hn
  obtain ⟨hbodies, hlog'⟩ := checkBodies_alone p.source ht (declarations p).1 [] hdecl.stands
  have hstands : Stands (checkedBodies p).2.table Table.root (p.functions.filter declarable) [] :=
    checkBodies_stands (declarations p).1 _ [] hdecl.stands
  have hentry := hstands.log_askEntry p.source
  have hlist : (declarations p).1 = p.functions.map fun f => (f, declarable f) := hlist
  have hlog' : (checkedBodies p).2.log = _ := hlog'
  rw [checkFresh_eq]
  refine ⟨hbodies.trans ?_, hentry.trans ?_⟩
  · rw [hlist, List.map_map]
    rfl
  · rw [hlog', hlog, hlist, List.map_map, Log.empty_append]
    rfl

/-- A program with its functions in another order has the same annotated functions and the same
reports, in another order. -/
theorem checkFresh_perm {p q : Program} (hsource : p.source = q.source)
    (h : p.functions.Perm q.functions)
    (hn : (p.functions.map fun f => (f.name, f.arity)).Nodup) :
    (checkFresh p).1.functions.Perm (checkFresh q).1.functions ∧
      (checkFresh p).2.log.reports.Perm (checkFresh q).2.log.reports := by
  have hn' : (q.functions.map fun f => (f.name, f.arity)).Nodup := (h.map _).nodup_iff.mp hn
  have hdeclared : (p.functions.filter declarable).Perm (q.functions.filter declarable) :=
    h.filter declarable
  have hsig := signature?_perm hdeclared (hn.sublist (List.filter_sublist.map _))
  obtain ⟨_, hdecl, _⟩ :=
    declareFunctions_distinct p.source p.functions ⟨.initial, .empty⟩ [] declared_initial hn
  obtain ⟨hbodies, hlog⟩ := checkFresh_alone hn hdecl.stands
  obtain ⟨hbodies', hlog'⟩ := checkFresh_alone hn' (hdecl.stands.of_signature? hsig)
  rw [hbodies, hlog, hbodies', hlog', ← hsource]
  have hentry : entryReports p.source (p.functions.filter declarable) =
      entryReports p.source (q.functions.filter declarable) := by
    unfold entryReports
    rw [hsig]
  rw [hentry]
  refine ⟨h.map _, ?_⟩
  refine (Log.reports_append_perm _ _).trans (.trans ?_ (Log.reports_append_perm _ _).symm)
  refine .append_right _ ?_
  refine (Log.reports_append_perm _ _).trans (.trans ?_ (Log.reports_append_perm _ _).symm)
  exact .append (Log.reports_joined_congr (h.map _)) (Log.reports_joined_congr (h.map _))

end Quill.Typing
