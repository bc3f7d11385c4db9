import Quill.Proofs.Compiled
import Quill.Proofs.Lowering.Tidy

/-! # Images are well formed

Whatever the program, an image that lowering gives is well formed: there is one method for each
function, and what the code of a method names is there.  Method numbers are given before any body
has code, and the string pool grows from body to body, so the facts about one body
(`lowerFunction_formed`) are carried over to the finished image (`lowerProgram_wellFormed`). -/

namespace Quill.Lowering

open Code Typing

/-! ### Well-formed images -/

/-- What the instructions of a method can name in an image with so many strings and host
routines. -/
def methodBounds (m : Method) (strings routines : Nat) : Bounds :=
  ⟨m.arity, m.locals.size, m.labels.size, strings, routines⟩

/-- The code of a method among others: a return stands at its end, behind a position of its own;
the table of labels gives for each label the one position of its marker; and all that is named is
there. -/
structure BodyFormed (strings routines : Nat) (M : Methods) (m : Method) : Prop where
  ends : ∃ body, m.code = body ++ #[.nop, .ret]
  labels : ∀ l p : Nat, m.labels[l]? = some p ↔ m.code[p]? = some (.label l)
  instrs : ∀ i ∈ m.code, Formed (methodBounds m strings routines) M i

/-- The method of a function: an external function has a host routine and no code. -/
structure MethodFormed (image : Image) (m : Method) (f : FunctionDecl) : Prop where
  name : m.name = f.name
  params : m.params = f.params.map (·.ty)
  returnType : m.returnType = f.returnType
  host : m.host.isSome = f.isExternal
  external : f.isExternal = true → m.code = #[]
  body : f.isExternal = false →
    BodyFormed image.strings.size image.hostRoutines.size image.methods m

/-- The image of a list of functions. -/
structure WellFormed (image : Image) (fs : List FunctionDecl) : Prop where
  methods : List.Forall₂ (MethodFormed image) image.methods.toList fs
  strings : image.strings.toList.Nodup
  entry : ∀ id, image.entry = some id → ∃ m, image.methods[id]? = some m ∧ m.host = none ∧
    m.name = "main" ∧ m.params = []

/-! ### Bodies -/

/-- The draft of a function is tidy before its body is lowered. -/
theorem tidy_new {M : Methods} {routines : Nat} {pool : Array String} (hpool : pool.toList.Nodup)
    (f : FunctionDecl) : Tidy M routines ⟨.new f.name (f.params.map (·.ty)) f.returnType, pool,
      bindParams [] 0 f.params⟩ := by
  refine ⟨fun p i hi => ?_, fun l p => ?_, hpool, fun x y hy => ?_⟩
  · simp [Draft.new] at hi
  · simp [Draft.new]
  · obtain ⟨k, z, hz, hxy⟩ := (mem_bindParams hy).resolve_left List.not_mem_nil
    obtain ⟨rfl, rfl⟩ := Prod.mk.inj hxy
    have hlt := (List.getElem?_eq_some_iff.mp hz).1
    show 0 + k < (f.params.map (·.ty)).length
    rw [List.length_map]
    omega

theorem lowerFunction_formed {M : Methods} {routines : Nat} (hM : Hosted M routines)
    {pool pool' : Array String} (hpool : pool.toList.Nodup) {f : FunctionDecl} {m : Method}
    (h : lowerFunction M pool f = .ok (m, pool')) :
    pool'.toList.Nodup ∧ BodyFormed pool'.size routines M m := by
  unfold lowerFunction at h
  dsimp only at h
  split at h
  · cases h
  obtain ⟨st, hb, h⟩ := bind_eq_ok.mp h
  obtain ⟨m', hfin, h⟩ := bind_eq_ok.mp h
  obtain ⟨rfl, rfl⟩ := Prod.mk.inj (Except.ok.inj h)
  have ht := ((lowerStmts_tidy hM hb (tidy_new hpool f)).emit (i := .nop) trivial rfl).emit
    (i := .ret) trivial rfl
  obtain ⟨hsize, hlabels⟩ := Draft.labels_finish hfin
  obtain ⟨rfl, _⟩ := finish_eq_ok hfin
  refine ⟨ht.pool, ⟨st.draft.code, ?_⟩, fun l p => ?_, fun i hi => ?_⟩
  · apply Array.ext'
    simp [Draft.emit]
  · rw [hlabels]
    exact ht.labels l p
  · obtain ⟨p, hp⟩ := Array.mem_iff_getElem?.mp hi
    have hformed := ht.instrs p i hp
    rw [methodBounds, hsize]
    exact hformed

/-! ### Images -/

theorem declareMethods_code {fs : List FunctionDecl} :
    ∀ {d d' : Declared}, declareMethods d fs = .ok d' → (∀ m ∈ d.methods, m.code = #[]) →
      ∀ m ∈ d'.methods, m.code = #[] := by
  induction fs with
  | nil =>
    intro d d' h hd
    obtain rfl := Except.ok.inj h
    exact hd
  | cons f fs ih =>
    intro d d' h hd
    obtain ⟨d₁, hf, h⟩ := bind_eq_ok.mp h
    refine ih h fun m hm => ?_
    unfold declareMethod at hf
    split at hf
    · cases hf
    · obtain rfl := Except.ok.inj hf
      rcases Array.mem_push.mp hm with hm | rfl
      · exact hd m hm
      · rfl

section

variable {image : Image} {M : Methods} {fs : List FunctionDecl}

theorem ImageOf.declared_at (h : ImageOf image M fs) {id : Nat} {c : Method}
    (hc : M[id]? = some c) : ∃ m f, image.methods[id]? = some m ∧
      MethodOf image.hostRoutines c f ∧ MethodOf image.hostRoutines m f := by
  rw [← Array.getElem?_toList] at hc
  obtain ⟨f, hf, hcf⟩ := Forall₂.getElem? h.declared.flip hc
  obtain ⟨m, hm, hmf, _⟩ := Forall₂.getElem? h.methods hf
  rw [Array.getElem?_toList] at hm
  exact ⟨m, f, hm, hcf, hmf⟩

/-- Calls can name methods of the image in the place of declared ones. -/
theorem ImageOf.formed (h : ImageOf image M fs) {b : Bounds} {i : Instr} (hi : Formed b M i) :
    Formed b image.methods i := by
  cases i with
  | call id argc =>
    obtain ⟨c, hc, hhost, hargc⟩ := hi
    obtain ⟨m, f, hm, hcf, hmf⟩ := h.declared_at hc
    refine ⟨m, hm, ?_, ?_⟩
    · have hsome : m.host.isSome = c.host.isSome := hmf.host_isSome.trans hcf.host_isSome.symm
      rw [hhost] at hsome
      simpa using hsome
    · rw [hargc, Method.arity, Method.arity, hcf.params, hmf.params]
  | _ => exact hi

theorem ImageOf.hosted (h : ImageOf image M fs) : Hosted M image.hostRoutines.size := by
  intro id m r hm hr
  rw [← Array.getElem?_toList] at hm
  obtain ⟨f, _, hmf⟩ := Forall₂.getElem? h.declared.flip hm
  cases hext : f.external with
  | none =>
    rw [hmf.body hext] at hr
    cases hr
  | some package =>
    obtain ⟨r', hr', hroutine⟩ := hmf.host package hext
    obtain rfl := Option.some.inj (hr.symm.trans hr')
    exact (Array.getElem?_eq_some_iff.mp hroutine).1

theorem ImageOf.entry_formed (h : ImageOf image M fs) {id : Nat} (hid : image.entry = some id) :
    ∃ m, image.methods[id]? = some m ∧ m.host = none ∧ m.name = "main" ∧ m.params = [] := by
  rw [h.entry, entryOf] at hid
  split at hid
  · next k hk =>
    obtain ⟨hlt, hsig, _⟩ := Array.findIdx?_eq_some_iff_getElem.mp hk
    have hget : image.methods[k]? = some image.methods[k] := Array.getElem?_eq_getElem hlt
    rw [hget] at hid
    split at hid
    · next hnone =>
      cases hid
      obtain ⟨hname, harity⟩ := of_decide_eq_true hsig
      exact ⟨_, hget, by simpa using hnone, hname, List.length_eq_zero_iff.mp harity⟩
    · cases hid
  · cases hid

end

/-- Every image that lowering gives is well formed, whether the program was checked or not. -/
theorem lowerProgram_wellFormed {p : Program} {image : Image} (h : lowerProgram p = .ok image) :
    WellFormed image p.functions := by
  obtain ⟨d, hd, hm, him⟩ := lowerProgram_parts h
  obtain ⟨hpool, ms, hms, hall⟩ := lowerFunctions_each (I := fun pool => pool.toList.Nodup)
    (fun hpool h => (lowerFunction_formed him.hosted hpool h).1) List.nodup_nil hm
  obtain rfl : image.methods.toList = ms := by simpa using hms
  refine ⟨?_, hpool, fun id hid => him.entry_formed hid⟩
  refine List.forall₂_iff_get.mpr ⟨him.methods.length_eq, fun k hk hk' => ?_⟩
  have hmethod : image.methods.toList[k]? = some (image.methods.toList.get ⟨k, hk⟩) :=
    List.getElem?_eq_getElem hk
  have hfunction : p.functions[k]? = some (p.functions.get ⟨k, hk'⟩) :=
    List.getElem?_eq_getElem hk'
  have hmf := (List.forall₂_iff_get.mp him.methods).2 k hk hk'
  have hbody := hall k _ _ hfunction hmethod
  refine ⟨hmf.1.name, hmf.1.params, hmf.1.returnType, hmf.1.host_isSome, fun hext => ?_,
    fun hext => ?_⟩
  · rw [if_pos hext] at hbody
    exact declareMethods_code hd (by simp) _ (Array.mem_of_getElem? hbody)
  · rw [if_neg (Bool.eq_false_iff.mp hext)] at hbody
    obtain ⟨pool, pool', hpool, hlower, hwithin⟩ := hbody
    have hformed := (lowerFunction_formed him.hosted hpool hlower).2
    refine ⟨hformed.ends, hformed.labels, fun i hi => him.formed ((hformed.instrs i hi).mono ?_)⟩
    exact ⟨Nat.le_refl _, Nat.le_refl _, Nat.le_refl _, hwithin.size_le, Nat.le_refl _⟩

theorem nearImage_wellFormed :
    lowerProgram (checkFresh nearProgram).1 = .ok nearImage ∧
      WellFormed nearImage (checkFresh nearProgram).1.functions :=
  ⟨nearProgram_compiled.lowered, lowerProgram_wellFormed nearProgram_compiled.lowered⟩

end Quill.Lowering
