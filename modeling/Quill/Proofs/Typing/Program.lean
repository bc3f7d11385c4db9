import Quill.Proofs.Typing.Sound
import Quill.Typing.Program

/-! # A program that is checked without a report is well typed

`checkFresh_sound` takes the typing rules from bodies to programs.  Declaring the functions fills
the root scope of the table, in which every body then sees all of them; checking a body leaves the
root scope as it was.  Checking changes nothing of a function but the annotations of its body. -/

namespace Quill.Typing

open Report (Log Finding)
open Scope (Table)

/-! ### Functions of the root scope -/

/-- Two lists that agree place by place on what is searched for find the same. -/
theorem find?_map_eq {α β γ : Type*} {R : α → β → Prop} {p : α → Bool} {q : β → Bool} {f : α → γ}
    {g : β → γ} (hR : ∀ a b, R a b → p a = q b ∧ f a = g b) {l : List α} {m : List β}
    (h : List.Forall₂ R l m) : (l.find? p).map f = (m.find? q).map g := by
  induction h with
  | nil => rfl
  | @cons a b l m hab _ ih =>
    obtain ⟨hpq, hfg⟩ := hR a b hab
    rw [List.find?_cons, List.find?_cons, hpq]
    cases q b with
    | false => exact ih
    | true => exact congrArg some hfg

/-- The function of the table and the function of the program are called and typed the same. -/
def Declares (F : Scope.Function) (f : FunctionDecl) : Prop :=
  F.name = f.name ∧ signatureIn F = signatureOf f

theorem Declares.hasSignature {F : Scope.Function} {f : FunctionDecl} (h : Declares F f)
    (name : String) (arity : Nat) :
    F.hasSignature name arity = decide (f.name = name ∧ f.arity = arity) := by
  obtain ⟨hname, hsig⟩ := h
  have hparams : F.arguments.map (·.ty) = f.params.map (·.ty) := congrArg Signature.params hsig
  have harity : F.arity = f.arity := by
    have hlen := congrArg List.length hparams
    rw [List.length_map, List.length_map] at hlen
    exact hlen
  unfold Scope.Function.hasSignature
  rw [hname, harity]

theorem builtin_signature (name : String) (arity : Nat) :
    (Scope.builtinFunctions.toList.find? (·.hasSignature name arity)).map signatureIn =
      builtinSignature? name arity := by
  have hall : List.Forall₂ (fun (F : Scope.Function) (b : String × List (String × Ty) × Ty) =>
      F.name = b.1 ∧ F.arguments.map (·.ty) = b.2.1.map (·.2) ∧ F.returnType = b.2.2 ∧
        F.isBuiltin = true) Scope.builtinFunctions.toList Scope.builtins := by
    simp [Scope.builtinFunctions, Scope.builtins, Scope.numbered]
  refine find?_map_eq (fun F b ⟨hname, hargs, hret, hb⟩ => ⟨?_, ?_⟩) hall
  · have hlen := congrArg List.length hargs
    rw [List.length_map, List.length_map] at hlen
    unfold Scope.Function.hasSignature Scope.Function.arity
    rw [hname, hlen]
  · unfold signatureIn
    rw [hargs, hret, hb]

/-- The table before any body is checked: only the root scope, which declares the functions of a
list. -/
structure Declared (t : Table) (fs : List FunctionDecl) : Prop where
  formed : t.Formed
  root : ∃ e, t.scopes[Table.root]? = some e ∧ e.parent = none ∧ e.identifiers = [] ∧
    ∀ k ∈ e.functions, k < t.functions.size
  size : t.scopes.size = 1
  declares : List.Forall₂ Declares (t.declaredFunctions Table.root) fs
  builtin : t.builtinList = Scope.builtinFunctions.toList

theorem declared_initial : Declared Table.initial [] where
  formed := by
    refine ⟨fun s p hp => ?_, ?_, ?_, ?_⟩
    · unfold Table.parent? at hp
      cases s with
      | zero => cases hp
      | succ s => cases hp
    all_goals
      intro k i
      simp [Table.initial]
  root := ⟨.fresh none Scope.rootLevel, rfl, rfl, rfl, fun k hk => absurd hk (Array.not_mem_empty k)⟩
  size := rfl
  declares := by simp [Table.declaredFunctions, Table.initial, Table.root, Scope.Entry.fresh]
  builtin := by simp [Table.builtinList, Table.initial, Scope.builtinFunctions, Scope.builtins]

theorem Declared.stands {t : Table} {fs : List FunctionDecl} (h : Declared t fs) :
    Stands t Table.root fs [] := by
  obtain ⟨e, he, hp, hids, _⟩ := h.root
  refine ⟨h.formed, .root he hp hids, fun name arity => ?_⟩
  have hfind := find?_map_eq (fun F f hd => ⟨hd.hasSignature name arity, hd.2⟩) h.declares
  unfold signature? findFunction? Table.builtin?
  rw [Option.map_or, hfind, h.builtin, builtin_signature]

theorem checkParams_sound (c : Setting) (params : List Param) (st : State) :
    (checkParams c st params).table = st.table ∧
      (Clean (checkParams c st params).log → Clean st.log ∧ ∀ p ∈ params, p.ty.isValue = true) := by
  unfold checkParams
  induction params generalizing st with
  | nil => exact ⟨rfl, fun hc => ⟨hc, fun _ hp => absurd hp List.not_mem_nil⟩⟩
  | cons p params ih =>
    rw [List.foldl_cons]
    obtain ⟨htab, hclean⟩ := ih _
    rw [htab]
    split
    · next hv =>
      refine ⟨rfl, fun hc => ?_⟩
      rw [if_pos hv] at hclean
      obtain ⟨hlog, hrest⟩ := hclean hc
      exact ⟨hlog, List.forall_mem_cons.mpr ⟨hv, hrest⟩⟩
    · next hv =>
      rw [if_neg hv] at hclean
      exact ⟨rfl, fun hc => absurd (hclean hc).1 (st.not_clean_add c _ _)⟩

theorem map_ty_numbered (params : List Param) :
    (Scope.numbered (params.map fun p => (p.name, p.ty))).map (·.ty) = params.map (·.ty) := by
  unfold Scope.numbered
  rw [List.map_map]
  have hcomp : ((fun a : Scope.Argument => a.ty) ∘
      fun x : (String × Ty) × Nat => { name := x.1.1, ty := x.1.2, position := x.2 + 1 }) =
        Prod.snd ∘ Prod.fst := rfl
  rw [hcomp, ← List.map_map, List.zipIdx_map_fst, List.map_map]
  rfl

/-- What a successful declaration of a function adds to the root scope. -/
theorem Declared.declareFunction? {t t' : Table} {fs : List FunctionDecl} {f : FunctionDecl}
    {id : Nat} (h : Declared t fs)
    (hd : t.declareFunction? Table.root f.name f.returnType
      (Scope.numbered (f.params.map fun p => (p.name, p.ty))) = some (t', id)) :
    Declared t' (fs ++ [f]) ∧ signature? fs f.name f.arity = none := by
  have hlen : (Scope.numbered (f.params.map fun p => (p.name, p.ty))).length = f.arity := by
    simp [Scope.numbered, FunctionDecl.arity]
  unfold Table.declareFunction? at hd
  dsimp only at hd
  split at hd
  · cases hd
  next hfree =>
  have hsig := h.stands.offers.resolveFunction? h.formed h.stands.tracks f.name f.arity
  rw [hlen, Bool.or_eq_true_iff, not_or, Bool.not_eq_true, Bool.not_eq_true,
    Option.isSome_eq_false_iff, Option.isNone_iff_eq_none, Option.isSome_eq_false_iff,
    Option.isNone_iff_eq_none] at hfree
  rw [Table.resolveFunction?, hfree.1, hfree.2] at hsig
  refine ⟨?_, hsig.symm⟩
  obtain ⟨e, he, hp, hids, hlt⟩ := h.root
  obtain ⟨rfl, -⟩ := Prod.mk.inj (Option.some.inj hd)
  refine ⟨?_, ⟨{ e with functions := e.functions.push t.functions.size }, ?_, hp, hids, ?_⟩, ?_,
    ?_, ?_⟩
  · refine ⟨fun s p hp => h.formed.parent_lt s p ?_, h.formed.id_eq, ?_, ?_⟩
    · rw [← hp]
      unfold Table.parent?
      rw [Array.getElem?_modify]
      split
      · cases t.scopes[s]? <;> rfl
      · rfl
    · intro k i hi
      rw [Array.size_modify]
      exact h.formed.scope_lt k i hi
    · intro k i bs b hi hb hmem
      rw [Array.size_modify]
      exact h.formed.blocks_lt k i bs b hi hb hmem
  · rw [Array.getElem?_modify, if_pos rfl, he]
    rfl
  · intro k hk
    rw [Array.size_push]
    rcases Array.mem_push.mp hk with hk | rfl
    · exact Nat.lt_succ_of_lt (hlt k hk)
    · exact Nat.lt_succ_self _
  · rw [Array.size_modify]
    exact h.size
  · have hold : ∀ F : Scope.Function, e.functions.toList.filterMap (fun k =>
        (t.functions.push F)[k]?) = t.declaredFunctions Table.root := by
      intro F
      unfold Table.declaredFunctions
      rw [he]
      refine List.filterMap_congr fun k hk => ?_
      rw [Array.getElem?_push, if_neg (Nat.ne_of_lt (hlt k (Array.mem_toList_iff.mp hk)))]
    unfold Table.declaredFunctions
    rw [Array.getElem?_modify, if_pos rfl, he]
    simp only [Option.map_some, Option.getD_some, Array.toList_push, List.filterMap_append,
      hold, Array.getElem?_push_size, List.filterMap_cons, List.filterMap_nil]
    exact List.rel_append h.declares (.cons ⟨rfl, by
      unfold signatureIn signatureOf
      rw [map_ty_numbered]⟩ .nil)
  · have hb := h.builtin
    unfold Table.builtinList at hb ⊢
    rw [Array.toList_push, List.filter_append, hb]
    simp

theorem signature?_append_eq_none {fs : List FunctionDecl} {f : FunctionDecl} {name : String}
    {arity : Nat} (h : signature? (fs ++ [f]) name arity = none) :
    signature? fs name arity = none ∧ ¬ (f.name = name ∧ f.arity = arity) := by
  unfold signature? findFunction? at h ⊢
  rw [List.find?_append, Option.or_eq_none_iff, Option.map_eq_none_iff, Option.or_eq_none_iff] at h
  obtain ⟨⟨hfs, hf⟩, hb⟩ := h
  refine ⟨?_, ?_⟩
  · rw [hfs, hb]
    rfl
  · rw [List.find?_singleton] at hf
    split at hf
    · cases hf
    · next hne => simpa using hne

/-- Declaring functions, with reports or without, fills the root scope. -/
theorem declareFunctions_declared {file : Option String} (fs : List FunctionDecl) :
    ∀ {before : List FunctionDecl} {st : State} {done : List (FunctionDecl × Bool)},
      Declared st.table before →
        ∃ after, Declared (declareFunctions file st done fs).2.table after := by
  induction fs with
  | nil => exact fun h => ⟨_, h⟩
  | cons f fs ih =>
    intro before st done h
    have htab := (checkParams_sound (settingOf file f) f.params st).1
    rw [declareFunctions, declareFunction]
    dsimp only
    rw [htab]
    split
    · next hd => exact ih (h.declareFunction? hd).1
    · exact ih (htab.symm ▸ h)

/-- Functions that are all declared without a report have distinct names and numbers of arguments,
and parameters with values. -/
theorem declareFunctions_sound {file : Option String} :
    ∀ {fs before : List FunctionDecl} (st : State) {done : List (FunctionDecl × Bool)},
      Declared st.table before → Clean (declareFunctions file st done fs).2.log →
        Clean st.log ∧ Declared (declareFunctions file st done fs).2.table (before ++ fs) ∧
          (declareFunctions file st done fs).1 = done.reverse ++ fs.map (·, true) ∧
          (∀ f ∈ fs, ∀ p ∈ f.params, p.ty.isValue = true) ∧
          (∀ f ∈ fs, signature? before f.name f.arity = none) ∧
          (fs.map fun f => (f.name, f.arity)).Nodup
  | [], before, st, done, h, hc => by
    refine ⟨hc, ?_, ?_, ?_⟩
    · rw [List.append_nil]
      exact h
    · simp [declareFunctions]
    · simp
  | f :: fs, before, st, done, h, hc => by
    obtain ⟨htab, hparams⟩ := checkParams_sound (settingOf file f) f.params st
    rw [declareFunctions, declareFunction] at hc ⊢
    dsimp only at hc ⊢
    rw [htab] at hc ⊢
    split at hc
    · next table id hd =>
      obtain ⟨hdecl, hnone⟩ := h.declareFunction? hd
      obtain ⟨hlog, hdecl', hlist, hvals, hfree, hnodup⟩ :=
        declareFunctions_sound ⟨table, _⟩ hdecl hc
      obtain ⟨hlog', hval⟩ := hparams hlog
      refine ⟨hlog', ?_, ?_, List.forall_mem_cons.mpr ⟨hval, hvals⟩,
        List.forall_mem_cons.mpr ⟨hnone, fun g hg => (signature?_append_eq_none (hfree g hg)).1⟩, ?_⟩
      · simpa using hdecl'
      · simpa using hlist
      · rw [List.map_cons, List.nodup_cons]
        refine ⟨fun hmem => ?_, hnodup⟩
        obtain ⟨g, hg, heq⟩ := List.mem_map.mp hmem
        have hne := (signature?_append_eq_none (hfree g hg)).2
        exact hne ⟨(congrArg Prod.fst heq).symm, (congrArg Prod.snd heq).symm⟩
    · obtain ⟨hlog, _⟩ := declareFunctions_sound _ (htab.symm ▸ h) hc
      exact absurd hlog (State.not_clean_add _ _ _ _)

/-! ### Bodies -/

theorem markEverywhere_eq {t t' : Table} {scope id : Nat} {x : String} {ty : Ty}
    (hd : t.declareIdentifier? scope x ty = some (t', id)) :
    t'.markEverywhere id = t'.markAssigned id scope := by
  obtain ⟨_, rfl, rfl⟩ := Table.declareIdentifier?_eq_some hd
  unfold Table.markAssigned
  rw [if_pos (by simp)]

/-- The parameters make the block of a body; without a report they are all there. -/
theorem declareParams_sound {fs : List FunctionDecl} {c : Setting} {scope : Nat} :
    ∀ (params : List Param) {b : Block} (st : State), Stands st.table scope fs [b] →
      Table.Kept scope st.table (declareParams c scope st params).table ∧
      ∃ b', Stands (declareParams c scope st params).table scope fs [b'] ∧
        (Clean (declareParams c scope st params).log →
          Clean st.log ∧ b' = paramBlock params ++ b)
  | [], b, st, h => ⟨Table.Kept.refl scope _, b, h, fun hc => ⟨hc, rfl⟩⟩
  | p :: params, b, st, h => by
    unfold declareParams
    rw [List.foldl_cons]
    split
    · next t' id hd =>
      obtain ⟨_, _, hs, hk⟩ := h.declare_some hd
      rw [← markEverywhere_eq hd] at hs hk
      obtain ⟨hk', b', hs', hclean⟩ :=
        declareParams_sound params ⟨t'.markEverywhere id, st.log⟩ hs
      refine ⟨hk.trans hk', b', hs', fun hc => ?_⟩
      obtain ⟨hlog, hb⟩ := hclean hc
      exact ⟨hlog, by rw [hb]; simp [paramBlock]⟩
    · obtain ⟨hk', b', hs', hclean⟩ := declareParams_sound params
        (st.add c (.duplicateIdentifier p.name) p.span) h
      exact ⟨hk', b', hs', fun hc => absurd (hclean hc).1 (State.not_clean_add _ _ _ _)⟩

/-- A function and its annotated form. -/
def Annotates (f f' : FunctionDecl) : Prop := ∃ body, f' = { f with body }

/-- Checking a body leaves the root scope; without a report the body is well typed. -/
theorem checkBody_sound {file : Option String} {fs : List FunctionDecl} {f : FunctionDecl}
    (st : State) (h : Stands st.table Table.root fs []) :
    Stands (checkBody file st f).2.table Table.root fs [] ∧
      (Clean (checkBody file st f).2.log → Clean st.log ∧
        ((∀ p ∈ f.params, p.ty.isValue = true) → BodyOk fs (checkBody file st f).1)) := by
  have hchild : Stands (st.table.child Table.root).1 (st.table.child Table.root).2 fs [[]] := h.child
  obtain ⟨hk, b, hs, hclean⟩ :=
    declareParams_sound (c := settingOf file f) f.params ⟨_, st.log⟩ hchild
  unfold checkBody
  dsimp only
  generalize declareParams (settingOf file f) _ ⟨_, st.log⟩ f.params = st₁ at hk hs hclean ⊢
  have hbody := checkStmts_sound (c := settingOf file f) st₁ hs f.body
  generalize checkStmts (settingOf file f) _ st₁ [] false f.body = r at hbody ⊢
  obtain ⟨hk', hroot, _⟩ := h.of_child hbody.stands.formed (hk.trans hbody.kept)
  split
  · exact ⟨hroot, fun hc => absurd hc (State.not_clean_add _ _ _ _)⟩
  · next hret =>
    refine ⟨hroot, fun hc => ?_⟩
    obtain ⟨hlog, rfl⟩ := hclean (hbody.clean hc)
    rw [List.append_nil] at hbody
    refine ⟨hlog, fun hparams => ?_⟩
    have hval : Ctx.Valued [paramBlock f.params] := by
      intro b hb q hq
      rw [List.mem_singleton.mp hb] at hq
      obtain ⟨p, hp, rfl⟩ := List.mem_map.mp (List.mem_reverse.mp hq)
      exact hparams p hp
    refine ⟨hbody.ok hval hc, ?_⟩
    rw [← hbody.returns]
    cases hr : r.2.1 with
    | true => exact .inr rfl
    | false => exact .inl (by simpa [hr] using hret)

/-- Checking the bodies annotates them and nothing else. -/
theorem checkBodies_annotates (file : Option String) (fs : List (FunctionDecl × Bool)) :
    ∀ (st : State) (done : List FunctionDecl), ∃ fs',
      (checkBodies file st done fs).1 = done.reverse ++ fs' ∧
        List.Forall₂ (fun f f' => Annotates f.1 f') fs fs' := by
  induction fs with
  | nil => exact fun _ _ => ⟨[], by simp [checkBodies], .nil⟩
  | cons f fs ih =>
    intro st done
    obtain ⟨f, declared⟩ := f
    unfold checkBodies
    split
    · obtain ⟨fs', heq, hall⟩ := ih _ _
      refine ⟨(checkBody file st f).1 :: fs', ?_, .cons ⟨_, rfl⟩ hall⟩
      rw [heq]
      simp
    · obtain ⟨fs', heq, hall⟩ := ih _ _
      refine ⟨f :: fs', ?_, .cons ⟨f.body, rfl⟩ hall⟩
      rw [heq]
      simp

/-- Bodies that are all checked without a report are well typed. -/
theorem checkBodies_sound {file : Option String} {gs : List FunctionDecl} :
    ∀ {fs : List (FunctionDecl × Bool)} (st : State) {done : List FunctionDecl},
      Stands st.table Table.root gs [] → Clean (checkBodies file st done fs).2.log →
        Clean st.log ∧
          ((∀ f ∈ fs, f.2 = true ∧ ∀ p ∈ f.1.params, p.ty.isValue = true) →
            (∀ f ∈ done, FunctionOk gs f) →
              ∀ f ∈ (checkBodies file st done fs).1, FunctionOk gs f)
  | [], st, done, h, hc => ⟨hc, fun _ hdone f hf => hdone f (by simpa [checkBodies] using hf)⟩
  | (f, declared) :: fs, st, done, h, hc => by
    unfold checkBodies at hc ⊢
    split
    · next hext =>
      rw [if_pos hext] at hc
      obtain ⟨hs, hbody⟩ := checkBody_sound st h
      obtain ⟨hlog, hrest⟩ := checkBodies_sound _ hs hc
      obtain ⟨hlog', hok⟩ := hbody hlog
      refine ⟨hlog', fun hall hdone => ?_⟩
      obtain ⟨⟨_, hf⟩, hfs⟩ := List.forall_mem_cons.mp hall
      exact hrest hfs (List.forall_mem_cons.mpr ⟨⟨hf, fun _ => hok hf⟩, hdone⟩)
    · next hext =>
      rw [if_neg hext] at hc
      obtain ⟨hlog, hrest⟩ := checkBodies_sound st h hc
      refine ⟨hlog, fun hall hdone => ?_⟩
      obtain ⟨⟨hdecl, hf⟩, hfs⟩ := List.forall_mem_cons.mp hall
      have hdecl : declared = true := hdecl
      have hext' : f.isExternal = true := by simpa [hdecl] using hext
      refine hrest hfs (List.forall_mem_cons.mpr ⟨⟨hf, fun hno => ?_⟩, hdone⟩)
      rw [hext'] at hno
      cases hno

/-! ### Programs -/

theorem map_annotates {fs fs' : List FunctionDecl} (h : List.Forall₂ Annotates fs fs') :
    fs'.map (fun f => (f.name, f.arity)) = fs.map fun f => (f.name, f.arity) := by
  induction h with
  | nil => rfl
  | cons hf _ ih =>
    obtain ⟨body, rfl⟩ := hf
    rw [List.map_cons, List.map_cons, ih]
    rfl

theorem signature?_annotates {fs fs' : List FunctionDecl} (h : List.Forall₂ Annotates fs fs')
    (name : String) (arity : Nat) : signature? fs' name arity = signature? fs name arity := by
  have hfind : ((findFunction? fs name arity).map signatureOf) =
      (findFunction? fs' name arity).map signatureOf := by
    refine find?_map_eq (fun f f' hf => ?_) h
    obtain ⟨body, rfl⟩ := hf
    exact ⟨rfl, rfl⟩
  unfold signature?
  rw [hfind]

/-- A program that is checked without a report is well typed, and only its annotations have
changed. -/
theorem checkFresh_sound {p : Program} (hc : Clean (checkFresh p).2.log) :
    ProgramOk (checkFresh p).1.functions ∧
      List.Forall₂ Annotates p.functions (checkFresh p).1.functions := by
  unfold checkFresh checkProgram at hc ⊢
  dsimp only at hc ⊢
  generalize hD : declareFunctions p.source ⟨.initial, .empty⟩ [] p.functions = D at hc ⊢
  have hclean : Clean (checkBodies p.source D.2 [] D.1).2.log := by
    split at hc
    · exact hc
    · exact absurd hc (not_clean_addFinding _ _ _ _)
  clear hc
  -- Some functions are declared in any case, and that is enough to see that there was no report.
  obtain ⟨gs, hgs⟩ : ∃ gs, Declared D.2.table gs := by
    rw [← hD]
    exact declareFunctions_declared p.functions declared_initial
  have hclean' := (checkBodies_sound D.2 hgs.stands hclean).1
  rw [← hD] at hclean'
  obtain ⟨_, hdecl, hlist, hval, hfree, hnodup⟩ :=
    declareFunctions_sound ⟨.initial, .empty⟩ declared_initial hclean'
  rw [hD] at hdecl hlist
  rw [List.nil_append] at hdecl
  rw [List.reverse_nil, List.nil_append] at hlist
  obtain ⟨fs', hfs', hann⟩ := checkBodies_annotates p.source D.1 D.2 []
  rw [List.reverse_nil, List.nil_append] at hfs'
  rw [hlist, List.forall₂_map_left_iff] at hann
  have hstands : Stands D.2.table Table.root fs' [] := by
    refine ⟨hdecl.stands.formed, hdecl.stands.tracks, fun name arity => ?_⟩
    rw [signature?_annotates hann]
    exact hdecl.stands.offers name arity
  have hok := (checkBodies_sound D.2 hstands hclean).2 ?_ (fun _ hf => absurd hf List.not_mem_nil)
  · rw [hfs'] at hok ⊢
    refine ⟨⟨map_annotates hann ▸ hnodup, fun f hf => ?_, hok⟩, hann⟩
    obtain ⟨g, hg, body, rfl⟩ := exists_of_forall₂_right hann hf
    exact hfree g hg
  · rw [hlist]
    intro f hf
    obtain ⟨g, hg, rfl⟩ := List.mem_map.mp hf
    exact ⟨rfl, hval g hg⟩

end Quill.Typing
