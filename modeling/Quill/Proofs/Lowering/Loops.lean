import Quill.Proofs.Lowering.Balance
import Quill.Proofs.Lowering.Jumps
import Quill.Proofs.Lowering.WellFormed
import Quill.Proofs.Machine.Rounds

/-! # Loop labels count iterations

A lowered loop has the shape that `WhileShape` and `DoShape` describe, wherever it stands in the
body of a function (`while_shape`, `doWhile_shape`): code outside of it does not branch into it
(`StmtCode.sealed`), and conditions do not return.  So in every call that ends well, the markers of
every loop of the program count its rounds (`lowerProgram_loops_counted`), however loops are nested,
whatever calls their conditions make, and however many of them a return leaves at once. -/

namespace Quill.Lowering

open Code Machine Typing

section

variable {image : Image} {M : Methods} {fs : List FunctionDecl} {m : Method} {returnType : Ty}
  {a b : Point}

theorem as_quiet (him : ImageOf image M fs) {visible : Visible} {e : Expr} {target : Ty} {i k : Nat}
    (hc : AsCode M m image.strings visible e target i k) {pc : Nat} (hle : i ≤ pc) (hlt : pc < k) :
    m.code[pc]? ≠ some .ret := by
  intro hret
  have hsegment := as_segment (R := fun _ => False) him hc rfl
  obtain ⟨j, hj, -, hno⟩ := hsegment.steady pc hle hlt
  exact hno (Option.some.inj (hj.symm.trans hret))

theorem as_lt (him : ImageOf image M fs) {visible : Visible} {e : Expr} {target : Ty} {i k : Nat}
    (hc : AsCode M m image.strings visible e target i k) : i < k := by
  have hsegment := as_segment (R := fun _ => True) him hc rfl
  have hle := hsegment.le
  by_contra hnot
  obtain rfl : i = k := by omega
  have hexit := hsegment.exit
  omega

/-- A piece of code and what stands around it are the code of a method. -/
theorem Sealed.branches {R : Nat → Nat → Prop} {x y : Nat} (h : Sealed m 0 m.code.size x y)
    (hbefore : ∀ pc t, pc < x → (t < x ∨ y ≤ t) → R pc t) (hinside : JumpsTo m R x y)
    (hafter : ∀ pc t, y ≤ pc → (t < x ∨ y ≤ t) → R pc t) : Branches m R := by
  intro pc i label t hi
  have hsize := (Array.getElem?_eq_some_iff.mp hi).1
  have hfirst := h.before.mono fun pc t _ hlt => hbefore pc t hlt
  have hlast := h.after.mono fun pc t hle _ => hafter pc t hle
  exact ((hfirst.trans hinside).trans hlast).branches pc i label t (Nat.zero_le pc) hsize hi

/-- The parts of a `while` that stands in a method, and where its branches go. -/
theorem while_shape (him : ImageOf image M fs) {span : Span} {cond : Expr} {body : List Stmt}
    (h : StmtCode M m image.strings returnType a (.while span cond body) b)
    (hsealed : Sealed m 0 m.code.size a.pos b.pos) :
    ∃ k e test yes stop, AsCode M m image.strings a.visible cond .boolean (a.pos + 1) k ∧
      StmtsCode M m image.strings returnType { a with pos := k + 3 } body e ∧
      b.pos = e.pos + 2 ∧ WhileShape m a.pos k e.pos test yes stop := by
  obtain ⟨test, yes, stop, k, e, htest, hcond, hbranch, hjump, hyes, hbody, hback, hstop, rfl⟩ := h
  refine ⟨k, e, test, yes, stop, hcond, hbody, rfl, ?_⟩
  have hlt := as_lt him hcond
  have hinside := stmts_closed him hbody
  have hle : k + 3 ≤ e.pos := hinside.le
  refine ⟨⟨by omega, hle⟩, ⟨htest.1, hyes.1, hstop.1⟩, hbranch, hjump, hback,
    ⟨htest.2, hyes.2, hstop.2⟩, fun pc hlow hhigh => as_quiet him hcond (by omega) hhigh, ?_⟩
  dsimp only at hsealed hinside
  refine hsealed.branches (fun pc t _ _ => by omega) ?_ (fun pc t _ _ => by omega)
  -- The parts of the loop, one after the other: the marker, the condition, the two branches behind
  -- it, the marker of the body, the body, the way back and the last marker.
  refine JumpsTo.trans (.plain htest.1 rfl) ?_
  refine ((as_closed him hcond).jumpsTo fun pc t _ _ => by omega).trans ?_
  refine (JumpsTo.branch hbranch rfl hyes.2 (by omega)).trans ?_
  refine (JumpsTo.branch hjump rfl hstop.2 (by omega)).trans ?_
  refine JumpsTo.trans (.plain hyes.1 rfl) ?_
  refine (hinside.jumpsTo fun pc t _ _ => by omega).trans ?_
  exact (JumpsTo.branch hback rfl htest.2 (by omega)).trans (.plain hstop.1 rfl)

/-- The parts of a `do … while` that stands in a method, and where its branches go. -/
theorem doWhile_shape (him : ImageOf image M fs) {span : Span} {cond : Expr} {body : List Stmt}
    (h : StmtCode M m image.strings returnType a (.doWhile span body cond) b)
    (hsealed : Sealed m 0 m.code.size a.pos b.pos) :
    ∃ e k again test stop,
      StmtsCode M m image.strings returnType { a with pos := a.pos + 1 } body e ∧
      AsCode M m image.strings a.visible cond .boolean (e.pos + 1) k ∧
      b.pos = k + 2 ∧ DoShape m a.pos e.pos k again test stop := by
  obtain ⟨again, test, stop, e, k, hagain, hbody, htest, hcond, hbranch, hstop, rfl⟩ := h
  refine ⟨e, k, again, test, stop, hbody, hcond, rfl, ?_⟩
  have hlt := as_lt him hcond
  have hinside := stmts_closed him hbody
  have hle : a.pos + 1 ≤ e.pos := hinside.le
  refine ⟨⟨hle, by omega⟩, ⟨hagain.1, htest, hstop⟩, hbranch, hagain.2,
    fun pc hlow hhigh => as_quiet him hcond (by omega) hhigh, ?_⟩
  dsimp only at hsealed hinside
  refine hsealed.branches (fun pc t _ _ => by omega) ?_ (fun pc t _ _ => by omega)
  refine JumpsTo.trans (.plain hagain.1 rfl) ?_
  refine (hinside.jumpsTo fun pc t _ _ => by omega).trans ?_
  refine JumpsTo.trans (.plain htest rfl) ?_
  refine ((as_closed him hcond).jumpsTo fun pc t _ _ => by omega).trans ?_
  exact (JumpsTo.branch hbranch rfl hagain.2 (by omega)).trans (.plain hstop rfl)

end

/-! ### Programs -/

/-- Statements of the functions of an image have their code in its methods, without branches into
it; and no label has two markers. -/
theorem lowerProgram_sealed {p : Program} {image : Image} (h : lowerProgram p = .ok image) :
    ∃ declared, declareMethods ⟨#[], #[]⟩ p.functions = .ok declared ∧
      ImageOf image declared.methods p.functions ∧
      ∀ (id : Nat) f m, p.functions[id]? = some f → image.methods[id]? = some m →
        f.isExternal = false → MarkedOnce m ∧ ∀ route t, f.block.at? route = some t →
          ∃ a b, StatementAt declared.methods image.strings m f route a t b ∧
            Sealed m 0 m.code.size a.pos b.pos := by
  obtain ⟨declared, hdeclared, him, hbodies⟩ := lowerProgram_bodies h
  refine ⟨declared, hdeclared, him, fun id f m hf hm hbody => ⟨fun label x y hx hy => ?_, ?_⟩⟩
  · obtain ⟨m', hm', hformed⟩ := Forall₂.getElem? (lowerProgram_wellFormed h).methods hf
    rw [Array.getElem?_toList, hm] at hm'
    obtain rfl := Option.some.inj hm'
    have hlabels := (hformed.body hbody).labels label
    exact Option.some.inj (((hlabels x).mpr hx).symm.trans ((hlabels y).mpr hy))
  · intro route t ht
    obtain ⟨e, hcode⟩ := hbodies id f m hf hm hbody
    have hblock : StmtCode declared.methods m image.strings f.returnType
        ⟨0, bindParams [] 0 f.params, 0⟩ f.block ⟨e.pos, bindParams [] 0 f.params, e.slots⟩ :=
      ⟨e, hcode.body, rfl⟩
    obtain ⟨a, b, hlies, hsealed⟩ := hblock.sealed him ht
    refine ⟨a, b, hlies, hsealed.before, ?_⟩
    rw [hcode.size]
    exact (hsealed.after.trans (.plain hcode.nop rfl)).trans (.plain hcode.ret rfl)

/-- **The markers of loops count their rounds.** In every call that ends well, whatever the loop and
wherever it stands in a function, its labels are passed as `WhileCounted` and `DoCounted` say, over
all frames of the function's method. -/
theorem lowerProgram_loops_counted {p : Program} {c : Call} (h : lowerProgram p = .ok c.image)
    {limit : Option Nat} {fuel : Nat} {v : Option Value} {r : Run LabelCounter}
    (hrun : c.run limit fuel = .ended (.ok v) r) {id : Nat} {f : FunctionDecl} {m : Method}
    (hf : p.functions[id]? = some f) (hm : c.image.methods[id]? = some m)
    (hbody : f.isExternal = false) :
    ∃ declared, declareMethods ⟨#[], #[]⟩ p.functions = .ok declared ∧
      (∀ route span cond body, f.block.at? route = some (.while span cond body) →
        ∃ a b k e test yes stop, StatementAt declared.methods c.image.strings m f route a
            (.while span cond body) b ∧
          AsCode declared.methods m c.image.strings a.visible cond .boolean (a.pos + 1) k ∧
          b.pos = e + 2 ∧ WhileShape m a.pos k e test yes stop ∧
          WhileCounted c.image id k test yes stop (c.course limit fuel)) ∧
      ∀ route span body cond, f.block.at? route = some (.doWhile span body cond) →
        ∃ a b e k again test stop, StatementAt declared.methods c.image.strings m f route a
            (.doWhile span body cond) b ∧
          AsCode declared.methods m c.image.strings a.visible cond .boolean (e + 1) k ∧
          b.pos = k + 2 ∧ DoShape m a.pos e k again test stop ∧
          DoCounted c.image id a.pos e k again test stop (c.course limit fuel) := by
  obtain ⟨declared, hdeclared, him, hfunctions⟩ := lowerProgram_sealed h
  obtain ⟨honce, hplaced⟩ := hfunctions id f m hf hm hbody
  refine ⟨declared, hdeclared, fun route span cond body hat => ?_,
    fun route span body cond hat => ?_⟩
  · obtain ⟨a, b, hlies, hsealed⟩ := hplaced route _ hat
    obtain ⟨k, e, test, yes, stop, hcond, -, hend, hshape⟩ := while_shape him hlies.code hsealed
    exact ⟨a, b, k, e.pos, test, yes, stop, hlies, hcond, hend, hshape,
      hshape.counted hrun hm honce⟩
  · obtain ⟨a, b, hlies, hsealed⟩ := hplaced route _ hat
    obtain ⟨e, k, again, test, stop, -, hcond, hend, hshape⟩ :=
      doWhile_shape him hlies.code hsealed
    exact ⟨a, b, e.pos, k, again, test, stop, hlies, hcond, hend, hshape,
      hshape.counted hrun hm honce⟩

/-- A loop of one round, and one that is left by a return in its second round. -/
def roundsProgram : Program where
  functions := [
    { name := "main", params := [], returnType := .void,
      body := [
        .decl .dummy "more" .boolean (some (.literal ⟨.boolean, .dummy⟩ (.boolean true))),
        .while .dummy (.name ⟨.boolean, .dummy⟩ "more")
          [.assign .dummy "more" .dummy (.literal ⟨.boolean, .dummy⟩ (.boolean false))],
        .doWhile .dummy [
          .ifThen .dummy (.name ⟨.boolean, .dummy⟩ "more") [.ret .dummy none],
          .assign .dummy "more" .dummy (.literal ⟨.boolean, .dummy⟩ (.boolean true))]
          (.name ⟨.boolean, .dummy⟩ "more")],
      external := none, span := .dummy }]
  source := none

def roundsImage : Image where
  methods := #[
    ⟨"main", [], .void, #[⟨"more", .boolean⟩],
      #[.pushInt 1, .storeLocal 0, .label 0, .loadLocal 0, .branchIfTrue 1, .jump 2, .label 1,
        .pushInt 0, .storeLocal 0, .jump 0, .label 2, .label 3, .loadLocal 0, .branchIfTrue 6,
        .jump 7, .label 6, .ret, .label 7, .pushInt 1, .storeLocal 0, .label 4, .loadLocal 0,
        .branchIfTrue 3, .label 5, .nop, .ret],
      #[2, 6, 10, 11, 20, 23, 15, 17], none⟩]
  strings := #[]
  hostRoutines := #[]
  entry := some 0

def roundsCall : Call := ⟨roundsImage, [], .bare, .ofLines [], 0, []⟩

theorem roundsProgram_compiled : Compiles roundsProgram roundsImage where
  clean := by
    unfold Clean
    decide +kernel
  lowered := by decide +kernel
  entry := by decide +kernel

/-- Both loops count their rounds, and these are the counts. -/
theorem roundsCall_counted : Compiles roundsProgram roundsImage ∧
    lowerProgram roundsProgram = .ok roundsImage ∧
    ∃ r, roundsCall.run none 29 = .ended (.ok none) r ∧
      (∃ k test yes stop, WhileCounted roundsImage 0 k test yes stop (roundsCall.course none 29)) ∧
      (∃ a e k again test stop,
        DoCounted roundsImage 0 a e k again test stop (roundsCall.course none 29)) ∧
      (List.range 6).map (fun label => passes roundsImage 0 label (roundsCall.course none 29)) =
        [2, 1, 1, 2, 1, 0] := by
  have hlowered : lowerProgram roundsProgram = .ok roundsImage := by decide +kernel
  have hrun : (roundsCall.run none 29).done?.isSome = true := by decide +kernel
  obtain ⟨r, hr⟩ := Option.isSome_iff_exists.mp hrun
  have hended := done?_eq_some.mp hr
  have hmain : roundsProgram.functions[0]? = some _ := rfl
  obtain ⟨declared, -, hwhile, hdo⟩ :=
    lowerProgram_loops_counted (c := roundsCall) hlowered hended hmain rfl rfl
  obtain ⟨a, b, k, e, test, yes, stop, -, -, -, -, hwhile⟩ := hwhile [(0, 1)] _ _ _ rfl
  obtain ⟨a', b', e', k', again, test', stop', -, -, -, -, hdo⟩ := hdo [(0, 2)] _ _ _ rfl
  exact ⟨roundsProgram_compiled, hlowered, r, hended, ⟨k, test, yes, stop, hwhile⟩,
    ⟨a'.pos, e', k', again, test', stop', hdo⟩, by decide +kernel⟩

end Quill.Lowering
