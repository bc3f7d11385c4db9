import Quill.Proofs.Lowering.Depth
import Quill.Proofs.Machine.Balance

/-! # Lowered code is balanced

Whatever the program, the code of its image has a depth at every position: statements start and end
without operands, and a return is at the depth of what the return statement gives (`Balanced`).  So
a run of the image never misses an operand, and a return can only fail where a function with a
result returns without one (`lowerProgram_balanced`). -/

namespace Quill.Lowering

open Code

section

variable (M : Methods) (strings : Array String) (m : Method) (f : FunctionDecl)

/-- The statement at the end of a route through the body of a function has its code from `a` to
`b`. -/
def StatementAt (route : Route) (a : Point) (t : Stmt) (b : Point) : Prop :=
  Lies M m strings f.returnType route ⟨0, bindParams [] 0 f.params, 0⟩ f.block a t b

/-- The return at the position is that of a return statement, or the one behind the body, at depth
zero. -/
def ReturnsThere (d : Nat → Nat) (pc : Nat) : Prop :=
  (∃ route a span value b, StatementAt M strings m f route a (.ret span value) b ∧
    b.pos = pc + 1) ∨ (pc + 1 = m.code.size ∧ d pc = 0)

/-- The return at the position is that of a return statement without a value, or the one behind the
body. -/
def ReturnsBare (pc : Nat) : Prop :=
  (∃ route a span b, StatementAt M strings m f route a (.ret span none) b ∧ b.pos = pc + 1) ∨
    pc + 1 = m.code.size

end

/-- The code of a function has the depth `d` at its positions: the depth changes along every edge of
control as the stack effects say, statements start and end at depth zero, and returns are at depth
one just if they give a value.  Every statement lies somewhere, and every return is that of a return
statement or the one behind the body. -/
structure Balanced (image : Image) (M : Methods) (m : Method) (f : FunctionDecl)
    (d : Nat → Nat) : Prop where
  start : d 0 = 0
  steady : ∀ pc i, m.code[pc]? = some i → Steady image m d pc i
  placed : ∀ route t, f.block.at? route = some t →
    ∃ a b, StatementAt M image.strings m f route a t b
  statements : ∀ route a t b, StatementAt M image.strings m f route a t b →
    d a.pos = 0 ∧ d b.pos = 0
  returned : ∀ route a span value b,
    StatementAt M image.strings m f route a (.ret span value) b →
    ∃ pc, b.pos = pc + 1 ∧ m.code[pc]? = some .ret ∧
      d pc = valueCount (value.isSome && m.returnsValue)
  returns : ∀ pc, m.code[pc]? = some .ret → ReturnsThere M image.strings m f d pc

section

variable {image : Image} {M : Methods} {fs : List FunctionDecl} {m : Method} {f : FunctionDecl}

/-- The code of a body, with a return behind it, is balanced. -/
theorem balanced_of_code (him : ImageOf image M fs) (hm : MethodOf image.hostRoutines m f)
    {e : Point} (hbody : StmtsCode M m image.strings f.returnType
      ⟨0, bindParams [] 0 f.params, 0⟩ f.body e) (hnop : m.code[e.pos]? = some .nop)
    (hret : m.code[e.pos + 1]? = some .ret) (hsize : m.code.size = e.pos + 2) :
    Balanced image M m f (depthAt image m) := by
  have hblock : StmtCode M m image.strings f.returnType ⟨0, bindParams [] 0 f.params, 0⟩ f.block
      ⟨e.pos, bindParams [] 0 f.params, e.slots⟩ := ⟨e, hbody, rfl⟩
  have hstmts : Segment image m (ReturnsThere M image.strings m f (depthAt image m)) 0 0 e.pos 0 :=
    stmt_segment him hblock (fun route a span value b pc hl hb =>
      .inl ⟨route, a, span, value, b, hl, hb⟩) rfl
  have hlast := hstmts.trans (.instr (n := 0) (k := 0) hnop rfl rfl rfl hstmts.exit)
  have hall := hlast.trans (.ret hret hlast.exit (.inr ⟨hsize.symm, hlast.exit⟩))
  have hinstr : ∀ pc i, m.code[pc]? = some i →
      Steady image m (depthAt image m) pc i ∧
        (i = .ret → ReturnsThere M image.strings m f (depthAt image m) pc) := by
    intro pc i hi
    have hlt := (Array.getElem?_eq_some_iff.mp hi).1
    obtain ⟨i', hi', hsteady⟩ := hall.steady pc (Nat.zero_le pc) (by omega)
    obtain rfl := Option.some.inj (hi'.symm.trans hi)
    exact hsteady
  refine ⟨rfl, fun pc i hi => (hinstr pc i hi).1, fun route t ht => hblock.lies ht,
    fun route a t b h => ?_, fun route a span value b h => ?_,
    fun pc hpc => (hinstr pc .ret hpc).2 rfl⟩
  · have hstart := Lies.depth him h rfl
    exact ⟨hstart, stmt_depth him h.code hstart⟩
  · obtain ⟨pc, hpos, hi, hvalue⟩ := ret_segment (R := fun _ => True) him h.code
      (Lies.depth him h rfl)
    refine ⟨pc, hpos, hi, ?_⟩
    rw [Method.returnsValue, hm.returnType]
    exact hvalue.exit

/-- A return at another depth than that of a result gives none where one is due. -/
theorem Balanced.bare {d : Nat → Nat} (h : Balanced image M m f d) {pc : Nat}
    (hi : m.code[pc]? = some .ret) (hne : d pc ≠ valueCount m.returnsValue) :
    m.returnsValue = true ∧ d pc = 0 ∧ ReturnsBare M image.strings m f pc := by
  rcases h.returns pc hi with ⟨route, a, span, value, b, hlies, hpos⟩ | ⟨hend, hzero⟩
  · obtain ⟨pc', hpos', -, hdepth⟩ := h.returned route a span value b hlies
    obtain rfl : pc' = pc := by omega
    rw [hdepth] at hne ⊢
    cases value with
    | some e => exact absurd rfl hne
    | none =>
      refine ⟨?_, rfl, .inl ⟨route, a, span, b, hlies, hpos⟩⟩
      cases hv : m.returnsValue with
      | true => rfl
      | false =>
        rw [hv] at hne
        exact absurd rfl hne
  · refine ⟨?_, hzero, .inr hend⟩
    cases hv : m.returnsValue with
    | true => rfl
    | false =>
      rw [hzero, hv] at hne
      exact absurd rfl hne

end

/-- The methods with code are those of the functions with a body, and they are balanced. -/
theorem lowerProgram_methods {p : Program} {image : Image} (h : lowerProgram p = .ok image) :
    ∃ declared, declareMethods ⟨#[], #[]⟩ p.functions = .ok declared ∧
      ∀ (id : Nat) m, image.methods[id]? = some m → m.host = none →
        ∃ f, p.functions[id]? = some f ∧
          Balanced image declared.methods m f (depthAt image m) := by
  obtain ⟨d, hd, him, hbodies⟩ := lowerProgram_bodies h
  refine ⟨d, hd, fun id m hm hhost => ?_⟩
  have hm' : image.methods.toList[id]? = some m := by rwa [Array.getElem?_toList]
  obtain ⟨f, hf, hmf, -⟩ := Forall₂.getElem? him.methods.flip hm'
  have hbody : f.isExternal = false := by
    rw [← hmf.host_isSome, hhost]
    rfl
  obtain ⟨e, hcode⟩ := hbodies id f m hf hm hbody
  exact ⟨f, hf, balanced_of_code him hmf hcode.body hcode.nop hcode.ret hcode.size⟩

/-- The code of every image that lowering gives is balanced, whether the program was checked or not.
So no run of the image fails for want of an operand, and none for the operands at a return, other
than where a function with a result executes a return without a value or comes to the end of its
body.  What a routine of the host reports as its own fault is not the doing of the image. -/
theorem lowerProgram_balanced {p : Program} {image : Image} (h : lowerProgram p = .ok image) :
    ∃ declared, declareMethods ⟨#[], #[]⟩ p.functions = .ok declared ∧
      (∀ (id : Nat) m, image.methods[id]? = some m → m.host = none →
        ∃ f, p.functions[id]? = some f ∧ ∃ d, Balanced image declared.methods m f d) ∧
      ∀ {σ : Type} (hosts : Machine.Hosts) (limit : Option Nat) (o : Machine.Observer σ)
        (r : Machine.Run σ),
        (∀ name, Machine.Fails ⟨image, hosts, limit⟩ o (.stackUnderflow name) r →
          hosts.Raises (.stackUnderflow name)) ∧
        ∀ name depth expected,
          Machine.Fails ⟨image, hosts, limit⟩ o (.stackImbalance name depth expected) r →
          hosts.Raises (.stackImbalance name depth expected) ∨
            ∃ f m pc, p.functions[r.state.frame.method]? = some f ∧
              image.methods[r.state.frame.method]? = some m ∧ m.host = none ∧
              r.state.frame.pc = pc + 1 ∧ m.code[pc]? = some .ret ∧ m.returnsValue = true ∧
              ReturnsBare declared.methods image.strings m f pc ∧
              name = m.name ∧ depth = 0 ∧ expected = 1 := by
  obtain ⟨declared, hdeclared, hmethods⟩ := lowerProgram_methods h
  have hcharted : Machine.Charted image (depthAt image) := by
    refine ⟨fun id m _ _ => rfl, fun id m hm hhost => ?_⟩
    obtain ⟨f, -, hbalanced⟩ := hmethods id m hm hhost
    exact hbalanced.steady
  refine ⟨declared, hdeclared, fun id m hm hhost => ?_, fun hosts limit o r => ⟨?_, ?_⟩⟩
  · obtain ⟨f, hf, hbalanced⟩ := hmethods id m hm hhost
    exact ⟨f, hf, _, hbalanced⟩
  · intro name hfails
    refine (hfails.uneven hcharted rfl).resolve_right ?_
    rintro ⟨m, pc, -, -, -, -, -, heq⟩
    cases heq
  · intro name depth expected hfails
    refine (hfails.uneven hcharted rfl).imp_right ?_
    rintro ⟨m, pc, hm, hhost, hpc, hi, hne, heq⟩
    obtain ⟨f, hf, hbalanced⟩ := hmethods _ m hm hhost
    obtain ⟨hvalue, hzero, hbare⟩ := hbalanced.bare hi hne
    rw [hzero, hvalue] at heq
    obtain ⟨rfl, rfl, rfl⟩ := Machine.Fault.stackImbalance.inj heq
    exact ⟨f, m, pc, hf, hm, hhost, hpc, hi, hvalue, hbare, rfl, rfl, rfl⟩

/-- A function with a result that returns without one.  Its condition pushes a truth value before
the branch. -/
def bareProgram : Program where
  functions := [
    { name := "main", params := [], returnType := .integer,
      body := [
        .ifThen .dummy (.not default (.literal default (.boolean false))) [.ret .dummy none]],
      external := none, span := .dummy }]
  source := none

def bareImage : Image where
  methods := #[
    ⟨"main", [], .integer, #[],
      #[.pushInt 0, .branchIfTrue 2, .label 3, .pushInt 1, .jump 4, .label 2, .pushInt 0, .label 4,
        .branchIfTrue 0, .jump 1, .label 0, .ret, .label 1, .nop, .ret],
      #[10, 12, 5, 2, 7], none⟩]
  strings := #[]
  hostRoutines := #[]
  entry := some 0

/-- The end of its run, behind the return. -/
def bareEnd : Machine.Run Unit :=
  ⟨⟨#[], ⟨0, #[], #[], 12, 0⟩, [], .bare, .ofLines []⟩, 9, ()⟩

theorem bareImage_balanced :
    lowerProgram bareProgram = .ok bareImage ∧
      Machine.Fails ⟨bareImage, .standard, none⟩ .blind (.stackImbalance "main" 0 1) bareEnd ∧
      ∃ declared f m d, declareMethods ⟨#[], #[]⟩ bareProgram.functions = .ok declared ∧
        bareProgram.functions[0]? = some f ∧ bareImage.methods[0]? = some m ∧
        Balanced bareImage declared.methods m f d ∧
        ReturnsBare declared.methods bareImage.strings m f 11 ∧
        ∀ name r, ¬ Machine.Fails ⟨bareImage, .standard, none⟩ .blind (.stackUnderflow name) r := by
  have hlowered : lowerProgram bareProgram = .ok bareImage := by decide +kernel
  have hfails : Machine.Fails ⟨bareImage, .standard, none⟩ .blind
      (.stackImbalance "main" 0 1) bareEnd := by
    refine ⟨.bare, .ofLines [], 0, [], ⟨#[], ⟨0, #[], #[], 0, 0⟩, [], .bare, .ofLines []⟩, (), 9,
      ?_, ?_⟩
    · rfl
    · rfl
  obtain ⟨declared, hdeclared, hmethods, hruns⟩ := lowerProgram_balanced hlowered
  obtain ⟨f, hf, d, hbalanced⟩ := hmethods 0 _ rfl rfl
  have himbalance := (hruns .standard none .blind bareEnd).2 "main" 0 1 hfails
  obtain ⟨f', m, pc, hf', hm, -, hpc, -, -, hbare, -⟩ :=
    himbalance.resolve_left (Machine.not_raises_standard rfl)
  obtain rfl : f' = f := Option.some.inj (hf'.symm.trans hf)
  obtain rfl := Option.some.inj (hm : bareImage.methods[0]? = some m)
  obtain rfl : 11 = pc := Nat.succ.inj hpc
  refine ⟨hlowered, hfails, declared, f', _, d, hdeclared, hf, rfl, hbalanced, hbare, ?_⟩
  intro name r hunderflow
  exact Machine.not_raises_standard rfl ((hruns .standard none .blind r).1 name hunderflow)

end Quill.Lowering
