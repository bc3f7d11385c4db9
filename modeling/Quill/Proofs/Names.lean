import Quill.Proofs.Lowering.Visits
import Quill.Proofs.Typing.Visits

/-! # Names in checking and in lowering

Checking looks a name up in a table of scopes that is never taken down, lowering in a list that a
block restores at its end; the branches of an `ifElse` come in another order, and so the numbers of
identifiers and the slots are given out differently.

At each place that both passes come to, the variables in sight of checking and those visible to
lowering stand in the same order, and each belongs to one declaration (`Aligned`).  So in a program
that is checked without a report a name means the same declaration to both, wherever it stands
(`names_agree`). -/

namespace Quill

open Scope (Identifier Table)
open Typing (Checks Clean Infers checkFresh checkedAt checkedBlock identifierOf? settingOf
  stateBefore)
open Lowering (Binding Lowers Methods Visible loweredAt loweredBlock lowerFunction slotOf?)

section

variable (p : Program) (n : Nat) (f f' : FunctionDecl) (methods : Methods) (pool : Array String)

/-- What checking and lowering know of a name in the `n`-th function belongs to one declaration of
the name, and has its type. -/
def SameVariable (x : String) (i : Identifier) (b : Binding) : Prop :=
  ∃ D : Declaration, D.declares? f = some (x, i.ty) ∧ b.ty = i.ty ∧
    identifierOf? p n f D = some i.id ∧ slotOf? methods pool f' D = some b.slot

/-- A variable in sight of checking and one that is visible to lowering are the same. -/
def InStep (t : Table) (v : String × Nat) (w : String × Binding) : Prop :=
  v.1 = w.1 ∧ ∃ i, t.identifiers[v.2]? = some i ∧ SameVariable p n f f' methods pool v.1 i w.2

/-- The variables in sight of checking are those that are visible to lowering, in the same order. -/
def Aligned (t : Table) (scope : Nat) (visible : Visible) : Prop :=
  List.Forall₂ (InStep p n f f' methods pool t) (t.inSight scope) visible

/-- **Agreement on names** in the `n`-th function `f` of a program and its annotated form `f'`. -/
structure NamesAgree : Prop where
  /-- Checking looks up the names of a statement in a scope of a table, and annotates its
  expressions from there.  Each name means an identifier, and where lowering looks it up it finds
  the variable of the same declaration. -/
  names : ∀ {way : Way} {k : Nat} {s : Stmt}, stmtAt? f.body way k = some s →
    ∃ scope st s', checkedAt (settingOf p.source f) (Typing.bodyState p n f) f.body way k =
        some (scope, st) ∧
      stmtAt? f'.body way k = some s' ∧
      List.Forall₂ (Infers ⟨st.table, scope, (settingOf p.source f).file⟩) s.exprs s'.exprs ∧
      ∀ x ∈ s.names, ∃ i, st.table.resolveIdentifier? scope x = some i ∧
        ∀ q, loweredAt methods f'.returnType (Lowering.bodyState pool f') f'.body way k = some q →
          ∃ b, (∀ q' : Lowering.State, q'.visible = q.visible → q'.resolve x = .ok b) ∧
            SameVariable p n f f' methods pool x i b
  /-- Lowering that succeeds looks up the names of every statement, and lowers its expressions with
  the same variables visible. -/
  lowered : ∀ {r}, lowerFunction methods pool f' = .ok r →
    ∀ {way : Way} {k : Nat} {s' : Stmt}, stmtAt? f'.body way k = some s' →
      ∃ q, loweredAt methods f'.returnType (Lowering.bodyState pool f') f'.body way k = some q ∧
        ∀ e ∈ s'.exprs, Lowers methods q.visible e
  /-- Every declaration has an identifier, and a slot if lowering succeeds. -/
  declarations : ∀ {D : Declaration} {v : String × Ty}, D.declares? f = some v →
    (∃ id, identifierOf? p n f D = some id) ∧
      ∀ {r}, lowerFunction methods pool f' = .ok r → ∃ slot, slotOf? methods pool f' D = some slot
  /-- Distinct declarations have distinct identifiers. -/
  identifiers : ∀ {D D' : Declaration} {id : Nat}, identifierOf? p n f D = some id →
    identifierOf? p n f D' = some id → D = D'
  /-- Distinct declarations have distinct slots. -/
  slots : ∀ {D D' : Declaration} {slot : Lowering.Slot}, slotOf? methods pool f' D = some slot →
    slotOf? methods pool f' D' = some slot → D = D'

end

section

variable {p : Program} {n : Nat} {f f' : FunctionDecl} {methods : Methods} {pool : Array String}

/-! ### Variables that stand aligned -/

theorem InStep.of_kept {t t' : Table} (hk : Table.Kept 0 t t') {v : String × Nat}
    {w : String × Binding} (h : InStep p n f f' methods pool t v w) :
    InStep p n f f' methods pool t' v w := by
  obtain ⟨hname, i, hi, hsame⟩ := h
  obtain ⟨a, ha, _⟩ := hk.identifier v.2 i hi
  exact ⟨hname, _, ha, hsame⟩

namespace Aligned

variable {t t' : Table} {scope scope' : Nat} {visible : Visible}

theorem of_kept (h : Aligned p n f f' methods pool t scope visible)
    (hsame : t'.inSight scope' = t.inSight scope) (hk : Table.Kept 0 t t') :
    Aligned p n f f' methods pool t' scope' visible := by
  unfold Aligned
  rw [hsame]
  exact List.Forall₂.imp (fun _ _ => InStep.of_kept hk) h

theorem declare (h : Aligned p n f f' methods pool t scope visible) (hk : Table.Kept 0 t t')
    {x : String} {ty : Ty} {id : Nat} {slot : Lowering.Slot} {D : Declaration}
    (hsight : t'.inSight scope = (x, id) :: t.inSight scope)
    (hi : ∃ i, t'.identifiers[id]? = some i ∧ i.id = id ∧ i.ty = ty)
    (hD : D.declares? f = some (x, ty)) (hid : identifierOf? p n f D = some id)
    (hslot : slotOf? methods pool f' D = some slot) :
    Aligned p n f f' methods pool t' scope ((x, ⟨slot, ty⟩) :: visible) := by
  obtain ⟨i, hi, rfl, rfl⟩ := hi
  unfold Aligned
  rw [hsight]
  exact .cons ⟨rfl, i, hi, D, hD, rfl, hid, hslot⟩
    (List.Forall₂.imp (fun _ _ => InStep.of_kept hk) h)

/-- A name that means an identifier means the variable of the same declaration. -/
theorem resolve (h : Aligned p n f f' methods pool t scope visible) {x : String} {i : Identifier}
    (hi : t.resolveIdentifier? scope x = some i) :
    ∃ b, (∀ q : Lowering.State, q.visible = visible → q.resolve x = .ok b) ∧
      SameVariable p n f f' methods pool x i b := by
  rw [Table.resolveIdentifier?_eq_bind] at hi
  obtain ⟨id, hid, hi⟩ := Option.bind_eq_some_iff.mp hi
  obtain ⟨b, hb, i', hi', hsame⟩ := Lowering.lookup_of_forall₂
    (R := fun x id b => ∃ i, t.identifiers[id]? = some i ∧
      SameVariable p n f f' methods pool x i b) h hid
  obtain rfl := Option.some.inj (hi.symm.trans hi')
  refine ⟨b, fun q hq => ?_, hsame⟩
  unfold Lowering.State.resolve
  rw [hq, hb]

end Aligned

namespace Typing.Checks

variable {fs : List FunctionDecl} (h : Checks p n f f' fs)
include h

theorem params_eq : f'.params = f.params := by rw [h.annotated]

theorem body_eq : f'.body = (checkStmts (settingOf p.source f) (bodyState p n f).1
    (bodyState p n f).2 [] false f.body).1 := by rw [h.annotated]

/-- The parameters stand aligned, and each is the next argument. -/
theorem aligned_params (methods : Methods) (pool : Array String) :
    ∀ {k : Nat}, k ≤ f.params.length →
      Aligned p n f f' methods pool (paramState p n f k).2.table (paramState p n f k).1
        (Lowering.bindParams [] 0 (f.params.take k)) := by
  intro k
  induction k with
  | zero =>
    intro _
    unfold Aligned
    rw [h.inSight_paramState_zero]
    exact .nil
  | succ k ih =>
    intro hk
    have hx : f.params[k]? = some f.params[k] := List.getElem?_eq_getElem hk
    obtain ⟨hid, hsight, hkept, hi⟩ := h.param hx
    rw [Lowering.bindParams_take_succ hx]
    refine (ih (Nat.le_of_succ_le hk)).declare (D := .param k) hkept hsight hi ?_ hid ?_
    · rw [Declaration.declares?, hx]
      rfl
    · rw [Lowering.slotOf?_param, h.params_eq]
      exact ⟨hk, rfl⟩

theorem aligned_body (methods : Methods) (pool : Array String) :
    Aligned p n f f' methods pool (bodyState p n f).2.table (bodyState p n f).1
      (Lowering.bodyState pool f').visible := by
  have hparams := h.aligned_params methods pool (Nat.le_refl _)
  rw [List.take_length] at hparams
  show Aligned p n f f' methods pool _ _ (Lowering.bindParams [] 0 f'.params)
  rw [h.params_eq]
  exact hparams

/-- A block that both passes come to, and where they see the same. -/
structure Meets (p : Program) (n : Nat) (f f' : FunctionDecl) (methods : Methods)
    (pool : Array String) (way : Way) (ss : List Stmt) (scope : Nat) (st : State)
    (q : Lowering.State) : Prop where
  checked : checkedBlock (settingOf p.source f) (bodyState p n f) f.body way = some (ss, scope, st)
  lowered : loweredBlock methods f'.returnType (Lowering.bodyState pool f') f'.body way =
    some ((checkStmts (settingOf p.source f) scope st [] false ss).1, q)
  aligned : Aligned p n f f' methods pool st.table scope q.visible

theorem aligned_before {way : Way} {ss : List Stmt} {scope : Nat} {st : State} {q : Lowering.State}
    (hm : Meets p n f f' methods pool way ss scope st q) :
    ∀ {k : Nat} {u : Lowering.State}, k ≤ ss.length →
      Lowering.lowerStmts methods f'.returnType q
        ((checkStmts (settingOf p.source f) scope st [] false ss).1.take k) = .ok u →
      Aligned p n f f' methods pool (stateBefore (settingOf p.source f) scope st ss k).table scope
        u.visible := by
  intro k
  induction k with
  | zero =>
    intro u _ hu
    obtain rfl := Except.ok.inj hu
    exact hm.aligned
  | succ k ih =>
    intro u' hk hu'
    have hs : ss[k]? = some ss[k] := List.getElem?_eq_getElem hk
    have hs' := checkStmts_getElem? (settingOf p.source f) scope st hs
    obtain ⟨hruns, ⟨_, hopens, _⟩, _⟩ := checkedBlock_checked h.runs hm.checked
    obtain ⟨u, hu, hlow⟩ := Lowering.lowerStmts_take_succ hs' hu'
    have hbefore := ih (Nat.le_of_succ_le hk) hu
    have hkept := hruns.kept_succ hs
    have hsight := hruns.inSight_succ hs
    rw [(Lowering.visible_lowerStmt hlow).1, Lowering.declaredBy_eq, declared?_checkStmt]
    cases hv : ss[k].declared? with
    | none =>
      rw [hv] at hsight
      exact hbefore.of_kept hsight hkept
    | some v =>
      obtain ⟨x, ty⟩ := v
      rw [hv] at hsight
      obtain ⟨t', hd, hmarks⟩ := hruns.declareIdentifier? hs hv
      have hv' := (declared?_checkStmt (settingOf p.source f) scope
        (stateBefore (settingOf p.source f) scope st ss k) ss[k]).trans hv
      refine hbefore.declare (D := .stmt way k) hkept hsight
        (getElem?_declareIdentifier hd hmarks.kept) ?_ (identifierAt?_eq h.runs hm.checked hs hv)
        (Lowering.slotAt?_eq hm.lowered hs' hv' hu hlow)
      rw [Declaration.declares?, stmtAt?, hopens.blockAt?, Option.bind_some, hs, Option.bind_some,
        hv]

/-- The block that lowering comes to is the annotated one. -/
theorem annotated_block {way : Way} {ss ts : List Stmt} {scope : Nat} {st : State}
    {q : Lowering.State}
    (hchecked : checkedBlock (settingOf p.source f) (bodyState p n f) f.body way =
      some (ss, scope, st))
    (hlowered : loweredBlock methods f'.returnType (Lowering.bodyState pool f') f'.body way =
      some (ts, q)) :
    ts = (checkStmts (settingOf p.source f) scope st [] false ss).1 := by
  obtain ⟨_, hopens, _⟩ := Lowering.loweredBlock_opens hlowered
  have hann := (checkedBlock_checked h.runs hchecked).annotated
  rw [← h.body_eq, hopens.blockAt?] at hann
  exact Option.some.inj hann

/-- Wherever both passes come to a block, they see the same. -/
theorem meets {way : Way} :
    ∀ {ss ts : List Stmt} {scope : Nat} {st : State} {q : Lowering.State},
      checkedBlock (settingOf p.source f) (bodyState p n f) f.body way = some (ss, scope, st) →
      loweredBlock methods f'.returnType (Lowering.bodyState pool f') f'.body way = some (ts, q) →
      Meets p n f f' methods pool way ss scope st q := by
  induction way with
  | nil =>
    intro ss ts scope st q hchecked hlowered
    refine ⟨hchecked, h.annotated_block hchecked hlowered ▸ hlowered, ?_⟩
    obtain ⟨rfl, hstart⟩ := Prod.mk.inj (Option.some.inj hchecked)
    obtain ⟨_, rfl⟩ := Prod.mk.inj (Option.some.inj hlowered)
    have hbody := h.aligned_body methods pool
    rw [hstart] at hbody
    exact hbody
  | cons step way ih =>
    obtain ⟨k, j⟩ := step
    intro inner inner' scope' st' q' hchecked hlowered
    refine ⟨hchecked, h.annotated_block hchecked hlowered ▸ hlowered, ?_⟩
    obtain ⟨ss, scope, st, s, houter, hk, hj, hspot⟩ := checkedBlock_cons.mp hchecked
    obtain ⟨ts, q, s', u, houter', hk', hj', hu, hq'⟩ := Lowering.loweredBlock_cons.mp hlowered
    obtain rfl := h.annotated_block houter houter'
    have hlt : k < ss.length := (List.getElem?_eq_some_iff.mp hk).1
    have hbefore := h.aligned_before (ih houter houter') (Nat.le_of_lt hlt) hu
    -- Other bodies of the statement may have been visited before this one, by one pass and not by
    -- the other: they add identifiers and slots, but nothing that is seen here.
    have hent := (checkedBlock_checked h.runs houter).runs.enter hk hj
    rw [hspot] at hent
    rw [(Lowering.stands_enter (isBody_of_bodies hj') hq').1]
    exact hbefore.of_kept hent.inSight hent.kept

/-- Where the passes look up the names of a statement, they see the same. -/
theorem aligned_lookup {way : Way} {k : Nat} {scope : Nat} {st : State} {q : Lowering.State}
    (hchecked : checkedAt (settingOf p.source f) (bodyState p n f) f.body way k = some (scope, st))
    (hlowered : loweredAt methods f'.returnType (Lowering.bodyState pool f') f'.body way k =
      some q) :
    Aligned p n f f' methods pool st.table scope q.visible := by
  obtain ⟨ss, st₀, s, hblock, hk, rfl⟩ := checkedAt_eq_some.mp hchecked
  obtain ⟨ts, q₀, s', u, hblock', hk', hu, hq⟩ := Lowering.loweredAt_eq_some.mp hlowered
  obtain rfl := h.annotated_block hblock hblock'
  have hlt : k < ss.length := (List.getElem?_eq_some_iff.mp hk).1
  have hbefore := h.aligned_before (h.meets hblock hblock') (Nat.le_of_lt hlt) hu
  obtain ⟨⟨b, Γ, hs⟩, _⟩ := (checkedBlock_checked h.runs hblock).runs.before k
  obtain ⟨hsame, hkept⟩ := hs.lookupState (settingOf p.source f) s
  rw [Lowering.visible_lookupState hq]
  exact hbefore.of_kept hsame hkept

/-! ### Every place -/

theorem checkedBlock_annotated {way : Way} {ss : List Stmt} (hss : blockAt? f.body way = some ss) :
    ∃ scope st, checkedBlock (settingOf p.source f) (bodyState p n f) f.body way =
        some (ss, scope, st) ∧
      blockAt? f'.body way = some (checkStmts (settingOf p.source f) scope st [] false ss).1 := by
  obtain ⟨scope, st, hblock⟩ := exists_checkedBlock (settingOf p.source f) (bodyState p n f) hss
  have hann := (checkedBlock_checked h.runs hblock).annotated
  rw [← h.body_eq] at hann
  exact ⟨scope, st, hblock, hann⟩

/-- Checking comes to every statement: it annotates the statement there, and each name means an
identifier. -/
theorem checkedAt_annotated {way : Way} {k : Nat} {s : Stmt} (hs : stmtAt? f.body way k = some s) :
    ∃ scope st s', checkedAt (settingOf p.source f) (bodyState p n f) f.body way k =
        some (scope, st) ∧
      stmtAt? f'.body way k = some s' ∧ s'.declared? = s.declared? ∧
      List.Forall₂ (Infers ⟨st.table, scope, (settingOf p.source f).file⟩) s.exprs s'.exprs ∧
      ∀ x ∈ s.names, ∃ i, st.table.resolveIdentifier? scope x = some i := by
  obtain ⟨ss, hss, hk⟩ := Option.bind_eq_some_iff.mp hs
  obtain ⟨scope, st, hblock, hann⟩ := h.checkedBlock_annotated hss
  have hruns := (checkedBlock_checked h.runs hblock).runs
  obtain ⟨⟨b, Γ, hstands⟩, _⟩ := hruns.before k
  refine ⟨scope, _, _, checkedAt_eq_some.mpr ⟨ss, st, s, hblock, hk, rfl⟩, ?_,
    declared?_checkStmt (settingOf p.source f) scope
      (stateBefore (settingOf p.source f) scope st ss k) s,
    exprs_checkStmt _ scope _ s, fun x hx => ?_⟩
  · rw [stmtAt?, hann, Option.bind_some, checkStmts_getElem? _ scope st hk]
  · exact Option.isSome_iff_exists.mp (hstands.names_resolve (hruns.stmt hk) x hx)

theorem exists_identifierOf? {D : Declaration} {v : String × Ty} (hD : D.declares? f = some v) :
    ∃ id, identifierOf? p n f D = some id := by
  cases D with
  | param k =>
    obtain ⟨x, hx, _⟩ := Option.map_eq_some_iff.mp hD
    exact ⟨_, (h.param hx).1⟩
  | stmt way k =>
    obtain ⟨s, hs, hv⟩ := Option.bind_eq_some_iff.mp hD
    obtain ⟨ss, hss, hk⟩ := Option.bind_eq_some_iff.mp hs
    obtain ⟨scope, st, hblock, _⟩ := h.checkedBlock_annotated hss
    exact ⟨_, identifierAt?_eq h.runs hblock hk hv⟩

theorem exists_slotOf? {r : Code.Method × Array String}
    (hr : lowerFunction methods pool f' = .ok r) {D : Declaration} {v : String × Ty}
    (hD : D.declares? f = some v) : ∃ slot, slotOf? methods pool f' D = some slot := by
  cases D with
  | param k =>
    obtain ⟨x, hx, _⟩ := Option.map_eq_some_iff.mp hD
    refine ⟨.arg k, (Lowering.slotOf?_param methods pool).mpr ⟨?_, rfl⟩⟩
    rw [h.params_eq]
    exact (List.getElem?_eq_some_iff.mp hx).1
  | stmt way k =>
    obtain ⟨s, hs, hv⟩ := Option.bind_eq_some_iff.mp hD
    obtain ⟨_, _, s', _, hs', hsame, _⟩ := h.checkedAt_annotated hs
    obtain ⟨q, hq⟩ := Lowering.lowerFunction_lowerStmts hr
    exact (Lowering.lowerStmts_reaches hq hs').2 v (hsame.trans hv)

end Typing.Checks

end

/-- **Agreement on names**: in a program that is checked without a report, a name in a function
means the same declaration to checking and to lowering wherever both look it up, and distinct
declarations have distinct slots. -/
theorem names_agree {p : Program} (hc : Clean (checkFresh p).2.log) {n : Nat} {f : FunctionDecl}
    (hf : p.functions[n]? = some f) (hext : f.isExternal = false) :
    ∃ f', (checkFresh p).1.functions[n]? = some f' ∧
      ∀ methods pool, NamesAgree p n f f' methods pool := by
  obtain ⟨f', hf', h⟩ := Typing.checkFresh_checks hc hf hext
  refine ⟨f', hf', fun methods pool => ?_⟩
  refine ⟨fun hs => ?_, fun hr way k s' hs' => ?_,
    fun hD => ⟨h.exists_identifierOf? hD, fun hr => h.exists_slotOf? hr hD⟩,
    h.identifierOf?_injective, Lowering.slotOf?_injective⟩
  · obtain ⟨scope, st, s', hchecked, hs', _, hexprs, hnames⟩ := h.checkedAt_annotated hs
    refine ⟨scope, st, s', hchecked, hs', hexprs, fun x hx => ?_⟩
    obtain ⟨i, hi⟩ := hnames x hx
    exact ⟨i, hi, fun q hq => (h.aligned_lookup hchecked hq).resolve hi⟩
  · obtain ⟨q, hq⟩ := Lowering.lowerFunction_lowerStmts hr
    exact (Lowering.lowerStmts_reaches hq hs').1

/-- A function whose parameter is hidden in one branch, by a variable of another type that is
computed from it, and assigned in the other. -/
def shadowing : FunctionDecl where
  name := "shadowing"
  params := [⟨"x", .integer, .dummy⟩]
  returnType := .integer
  body := [
    .ifElse .dummy (.compare default .lt (.name default "x") (.literal default (.integer 0)))
      [.decl .dummy "x" .boolean
          (some (.compare default .lt (.name default "x") (.literal default (.integer (-9))))),
        .ifThen .dummy (.name default "x") [.ret .dummy (some (.literal default (.integer 1)))]]
      [.decl .dummy "y" .integer (some (.name default "x")),
        .assign .dummy "x" .dummy (.name default "y")],
    .ret .dummy (some (.name default "x"))]
  external := none
  span := .dummy

/-- A program with this function and an empty `main`. -/
def shadowingProgram : Program where
  functions := [shadowing,
    { name := "main", params := [], returnType := .void, body := [], external := none,
      span := .dummy }]
  source := none

/-- The declarations of `shadowing`: its parameter, the variable that hides it, and `y`. -/
def shadowingDeclarations : List Declaration := [.param 0, .stmt [(0, 0)] 0, .stmt [(0, 1)] 0]

/-- The variable that hides the parameter is the first identifier of the body, but its slot comes
after that of `y`. -/
theorem shadowingProgram_names :
    (Clean (checkFresh shadowingProgram).2.log ∧ shadowingProgram.functions[0]? = some shadowing ∧
      shadowing.isExternal = false) ∧
    shadowingDeclarations.map (identifierOf? shadowingProgram 0 shadowing) =
      [some 0, some 1, some 2] ∧
    (checkFresh shadowingProgram).1.functions[0]?.map
        (fun f' => shadowingDeclarations.map (slotOf? #[] #[] f')) =
      some [some (.arg 0), some (.local 1), some (.local 0)] ∧
    ∃ f', (checkFresh shadowingProgram).1.functions[0]? = some f' ∧
      ∀ methods pool, NamesAgree shadowingProgram 0 shadowing f' methods pool := by
  have hc : Clean (checkFresh shadowingProgram).2.log := by
    unfold Clean
    decide +kernel
  exact ⟨⟨hc, rfl, rfl⟩, by decide +kernel, by decide +kernel, names_agree hc rfl rfl⟩

end Quill
