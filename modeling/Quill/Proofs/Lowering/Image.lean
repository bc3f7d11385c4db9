import Quill.Proofs.Lowering.Growth

/-! # Images hold the code of their programs

`lowerProgram_layout` takes the layout of code from bodies to images: the methods of an image stand
in the order of the functions of its program, and those with a body hold its code. -/

namespace Quill.Lowering

open Code

/-! ### Functions -/

theorem finish_eq_ok {d : Draft} {m : Method} (h : d.finish = .ok m) :
    m = { name := d.name, params := d.params, returnType := d.returnType, locals := d.locals,
          code := d.code, labels := d.labels.filterMap id, host := none } ∧
      ∀ l p : Nat, d.labels[l]? = some (some p) → m.position? l = some p :=
  ⟨(Draft.finish_eq_ok_iff.mp h).2, fun l p hl => ((Draft.labels_finish h).2 l p).mpr hl⟩

/-- The method of a function holds the code of its body, and behind it no more than a return. -/
theorem lowerFunction_code {M : Methods} {pool pool' : Array String} {f : FunctionDecl}
    {m : Method} (h : lowerFunction M pool f = .ok (m, pool')) :
    (m.name = f.name ∧ m.params = f.params.map (·.ty) ∧ m.returnType = f.returnType ∧
      m.host = none) ∧ Within pool pool' ∧
      ∀ {strings}, Within pool' strings →
        ∃ e, StmtsCode M m strings f.returnType ⟨0, bindParams [] 0 f.params, 0⟩ f.body e ∧
          m.code[e.pos]? = some .nop ∧ m.code[e.pos + 1]? = some .ret ∧
          m.locals.size = e.slots ∧ m.code.size = e.pos + 2 := by
  unfold lowerFunction at h
  dsimp only at h
  split at h
  · cases h
  obtain ⟨st, hb, h⟩ := bind_eq_ok.mp h
  obtain ⟨m', hfin, h⟩ := bind_eq_ok.mp h
  obtain ⟨rfl, rfl⟩ := Prod.mk.inj (Except.ok.inj h)
  have hbc := lowerStmts_layout hb
  obtain ⟨rfl, hpos⟩ := finish_eq_ok hfin
  obtain ⟨hname, hparams, hret⟩ := hbc.grows.head
  refine ⟨⟨hname, hparams, hret, rfl⟩, hbc.grows.pool, fun {strings} hstr => ?_⟩
  have hnop := lays_emit st .nop
  have hend := lays_emit (st.emit .nop) .ret
  have hf : Final ((st.emit .nop).emit .ret) _ strings :=
    ⟨Within.refl _, Within.refl _, hstr, hpos⟩
  have hf₁ := hf.keeps hend.grows.keeps
  have hret := hend.layout hf
  rw [size_emit] at hret
  refine ⟨_, hbc.layout (hf₁.keeps hnop.grows.keeps), hnop.layout hf₁, hret, rfl, ?_⟩
  show ((st.emit .nop).emit .ret).draft.code.size = _
  rw [size_emit, size_emit]
  rfl

theorem lowerFunction_layout {M : Methods} {pool pool' : Array String} {f : FunctionDecl}
    {m : Method} (h : lowerFunction M pool f = .ok (m, pool')) :
    (m.name = f.name ∧ m.params = f.params.map (·.ty) ∧ m.returnType = f.returnType ∧
      m.host = none) ∧ Within pool pool' ∧
      ∀ {strings}, Within pool' strings → FunctionCode M strings m f := by
  obtain ⟨hhead, hpool, hcode⟩ := lowerFunction_code h
  refine ⟨hhead, hpool, fun hstr => ?_⟩
  obtain ⟨e, hbody, hnop, hret, hlocals, -⟩ := hcode hstr
  exact ⟨e, hbody, hnop, hret, hlocals⟩

/-! ### Methods -/

theorem MethodOf.within {hs hs' : Array HostRoutine} {m : Method} {f : FunctionDecl}
    (h : MethodOf hs m f) (hw : Within hs hs') : MethodOf hs' m f :=
  ⟨h.name, h.params, h.returnType, h.body, fun package he =>
    let ⟨k, hk, hr⟩ := h.host package he
    ⟨k, hk, hw _ _ hr⟩⟩

theorem MethodOf.host_isSome {hs : Array HostRoutine} {m : Method} {f : FunctionDecl}
    (h : MethodOf hs m f) : m.host.isSome = f.isExternal := by
  unfold FunctionDecl.isExternal
  cases hext : f.external with
  | none => rw [h.body hext, Option.isSome_none, Option.isSome_none]
  | some package =>
    obtain ⟨r, hr, _⟩ := h.host package hext
    rw [hr, Option.isSome_some, Option.isSome_some]

theorem declareMethod_layout {d d' : Declared} {f : FunctionDecl}
    (h : declareMethod d f = .ok d') :
    Within d.hostRoutines d'.hostRoutines ∧
      ∃ m, d'.methods = d.methods.push m ∧ MethodOf d'.hostRoutines m f := by
  unfold declareMethod at h
  split at h
  · cases h
  · obtain rfl := Except.ok.inj h
    dsimp only
    cases hext : f.external with
    | none =>
      refine ⟨Within.refl _, _, rfl, rfl, rfl, rfl, fun _ => rfl, fun package he => ?_⟩
      rw [hext] at he
      cases he
    | some package =>
      refine ⟨within_push _ _, _, rfl, rfl, rfl, rfl, fun he => ?_, fun package' he => ?_⟩
      · rw [hext] at he
        cases he
      · rw [hext] at he
        cases he
        exact ⟨_, rfl, Array.getElem?_push_size ..⟩

theorem declareMethods_layout {fs : List FunctionDecl} :
    ∀ {d d' : Declared}, declareMethods d fs = .ok d' →
      Within d.hostRoutines d'.hostRoutines ∧
        ∃ ms, d'.methods.toList = d.methods.toList ++ ms ∧
          List.Forall₂ (MethodOf d'.hostRoutines) ms fs := by
  induction fs with
  | nil =>
    intro d d' h
    obtain rfl := Except.ok.inj h
    exact ⟨Within.refl _, [], by simp, .nil⟩
  | cons f fs ih =>
    intro d d' h
    obtain ⟨d₁, hd, h⟩ := bind_eq_ok.mp h
    obtain ⟨hw, m, hm, hmf⟩ := declareMethod_layout hd
    obtain ⟨hw', ms, hms, hall⟩ := ih h
    refine ⟨hw.trans hw', m :: ms, ?_, .cons (hmf.within hw') hall⟩
    rw [hms, hm]
    simp

theorem drop_eq_cons {α : Type} {xs : Array α} {k : Nat} {x : α} (h : xs[k]? = some x) :
    xs.toList.drop k = x :: xs.toList.drop (k + 1) := by
  obtain ⟨hlt, rfl⟩ := Array.getElem?_eq_some_iff.mp h
  rw [List.drop_eq_getElem_cons (by simpa using hlt)]
  simp

/-- The methods are finished in order; an external function keeps its declared method. -/
theorem lowerFunctions_layout {M : Methods} {fs : List FunctionDecl} :
    ∀ {pool pool' : Array String} {done ms : Array Method},
      lowerFunctions M pool done fs = .ok (ms, pool') →
      Within pool pool' ∧ ∃ ms', ms.toList = done.toList ++ ms' ∧
        ∀ {strings}, Within pool' strings → ∀ {hs : Array HostRoutine},
          List.Forall₂ (MethodOf hs) (M.toList.drop done.size) fs →
          List.Forall₂ (fun m f => MethodOf hs m f ∧
            (f.isExternal = false → FunctionCode M strings m f)) ms' fs := by
  induction fs with
  | nil =>
    intro pool pool' done ms h
    obtain ⟨rfl, rfl⟩ := Prod.mk.inj (Except.ok.inj h)
    exact ⟨Within.refl _, [], by simp, fun _ _ _ => .nil⟩
  | cons f fs ih =>
    intro pool pool' done ms h
    unfold lowerFunctions at h
    split at h
    · next hext =>
      split at h
      · next m hm =>
        obtain ⟨hw, ms', hms, hall⟩ := ih h
        refine ⟨hw, m :: ms', ?_, fun {strings} hstr {hs} hdecl => ?_⟩
        · rw [hms]
          simp
        · rw [drop_eq_cons hm] at hdecl
          cases hdecl with
          | cons hf hrest =>
            refine .cons ⟨hf, fun hno => ?_⟩ (hall hstr (by simpa using hrest))
            rw [hext] at hno
            cases hno
      · cases h
    · next hext =>
      obtain ⟨⟨m, pool₁⟩, hm, h⟩ := bind_eq_ok.mp h
      obtain ⟨hw, ms', hms, hall⟩ := ih h
      obtain ⟨⟨hname, hparams, hret, hhost⟩, hw₁, hcode⟩ := lowerFunction_layout hm
      refine ⟨hw₁.trans hw, m :: ms', ?_, fun {strings} hstr {hs} hdecl => ?_⟩
      · rw [hms]
        simp
      · have hnone : f.external = none := by simpa [FunctionDecl.isExternal] using hext
        have hmf : MethodOf hs m f := by
          refine ⟨hname, hparams, hret, fun _ => hhost, fun package he => ?_⟩
          rw [hnone] at he
          cases he
        refine .cons ⟨hmf, fun _ => hcode (hw.trans hstr)⟩ (hall hstr ?_)
        obtain ⟨_, ms, _, hrest, heq⟩ := List.forall₂_cons_right_iff.mp hdecl
        have htail : M.toList.drop (done.push m).size = ms := by
          rw [Array.size_push, ← List.tail_drop, heq, List.tail_cons]
        rw [htail]
        exact hrest

/-- Every function with a body is lowered with some pool, which is still there in the end, and an
external function keeps its declared method.  A property of pools that lowering keeps holds
throughout. -/
theorem lowerFunctions_each {M : Methods} {I : Array String → Prop}
    (hI : ∀ {pool pool' : Array String} {f : FunctionDecl} {m : Method}, I pool →
      lowerFunction M pool f = .ok (m, pool') → I pool') {fs : List FunctionDecl} :
    ∀ {pool pool' : Array String} {done ms : Array Method}, I pool →
      lowerFunctions M pool done fs = .ok (ms, pool') →
      I pool' ∧ ∃ ms', ms.toList = done.toList ++ ms' ∧
        ∀ (k : Nat) f m, fs[k]? = some f → ms'[k]? = some m →
          if f.isExternal then M[done.size + k]? = some m
          else ∃ pool₁ pool₂, I pool₁ ∧ lowerFunction M pool₁ f = .ok (m, pool₂) ∧
            Within pool₂ pool' := by
  induction fs with
  | nil =>
    intro pool pool' done ms hpool h
    obtain ⟨rfl, rfl⟩ := Prod.mk.inj (Except.ok.inj h)
    exact ⟨hpool, [], by simp, fun k f m hf => by simp at hf⟩
  | cons f fs ih =>
    intro pool pool' done ms hpool h
    unfold lowerFunctions at h
    split at h
    · next hext =>
      split at h
      · next m hm =>
        obtain ⟨hpool', ms', hms, hall⟩ := ih hpool h
        refine ⟨hpool', m :: ms', by rw [hms]; simp, fun k g m' hg hm' => ?_⟩
        cases k with
        | zero =>
          cases hg
          cases hm'
          rw [if_pos hext]
          exact hm
        | succ k =>
          have hk := hall k g m' hg hm'
          rwa [Array.size_push, Nat.add_assoc, Nat.add_comm 1 k] at hk
      · cases h
    · next hext =>
      obtain ⟨⟨m, pool₁⟩, hm, h⟩ := bind_eq_ok.mp h
      obtain ⟨hwithin, _⟩ := lowerFunctions_layout h
      obtain ⟨hpool', ms', hms, hall⟩ := ih (hI hpool hm) h
      refine ⟨hpool', m :: ms', by rw [hms]; simp, fun k g m' hg hm' => ?_⟩
      cases k with
      | zero =>
        cases hg
        cases hm'
        rw [if_neg hext]
        exact ⟨pool, pool₁, hpool, hm, hwithin⟩
      | succ k =>
        have hk := hall k g m' hg hm'
        rwa [Array.size_push, Nat.add_assoc, Nat.add_comm 1 k] at hk

/-- The image of a program is made from its declared methods, and holds the code of its
functions. -/
theorem lowerProgram_parts {p : Program} {image : Image} (h : lowerProgram p = .ok image) :
    ∃ d, declareMethods ⟨#[], #[]⟩ p.functions = .ok d ∧
      lowerFunctions d.methods #[] #[] p.functions = .ok (image.methods, image.strings) ∧
      ImageOf image d.methods p.functions := by
  obtain ⟨d, hd, h⟩ := bind_eq_ok.mp h
  obtain ⟨⟨methods, strings⟩, hm, h⟩ := bind_eq_ok.mp h
  obtain rfl := Except.ok.inj h
  obtain ⟨_, ms, hms, hdecl⟩ := declareMethods_layout hd
  obtain ⟨_, ms', hms', hall⟩ := lowerFunctions_layout hm
  have hM : d.methods.toList = ms := by simpa using hms
  rw [← hM] at hdecl
  refine ⟨d, hd, hm, hdecl, ?_, rfl⟩
  have hmethods : methods.toList = ms' := by simpa using hms'
  rw [show (Image.mk methods strings d.hostRoutines (entryOf methods)).methods.toList = ms' from
    hmethods]
  exact hall (Within.refl _) (by simpa using hdecl)

/-- The code of a function with a body, which ends at a point, and nothing behind it but a
return. -/
structure WholeCode (M : Methods) (strings : Array String) (m : Method) (f : FunctionDecl)
    (e : Point) : Prop where
  body : StmtsCode M m strings f.returnType ⟨0, bindParams [] 0 f.params, 0⟩ f.body e
  nop : m.code[e.pos]? = some .nop
  ret : m.code[e.pos + 1]? = some .ret
  locals : m.locals.size = e.slots
  size : m.code.size = e.pos + 2

/-- The methods of the functions with a body hold their code and nothing else. -/
theorem lowerProgram_bodies {p : Program} {image : Image} (h : lowerProgram p = .ok image) :
    ∃ d, declareMethods ⟨#[], #[]⟩ p.functions = .ok d ∧ ImageOf image d.methods p.functions ∧
      ∀ (id : Nat) f m, p.functions[id]? = some f → image.methods[id]? = some m →
        f.isExternal = false → ∃ e, WholeCode d.methods image.strings m f e := by
  obtain ⟨d, hd, hlower, him⟩ := lowerProgram_parts h
  obtain ⟨-, ms, hms, hall⟩ :=
    lowerFunctions_each (I := fun _ => True) (fun _ _ => trivial) trivial hlower
  obtain rfl : image.methods.toList = ms := by simpa using hms
  refine ⟨d, hd, him, fun id f m hf hm hbody => ?_⟩
  rw [← Array.getElem?_toList] at hm
  have hfunction := hall id f m hf hm
  rw [if_neg (Bool.eq_false_iff.mp hbody)] at hfunction
  obtain ⟨pool, pool', -, hlowered, hwithin⟩ := hfunction
  obtain ⟨-, -, hcode⟩ := lowerFunction_code hlowered
  obtain ⟨e, hstmts, hnop, hret, hlocals, hsize⟩ := hcode hwithin
  exact ⟨e, hstmts, hnop, hret, hlocals, hsize⟩

theorem lowerProgram_layout {p : Program} {image : Image} (h : lowerProgram p = .ok image) :
    ∃ M, ImageOf image M p.functions := by
  obtain ⟨d, _, _, him⟩ := lowerProgram_parts h
  exact ⟨d.methods, him⟩

end Quill.Lowering
