import Quill.Proofs.Machine.Passage

/-! # Counting the rounds of a loop

The code of a loop has one way in, at its first marker, and one way on, behind the branch that takes
the value of its condition.  `WhileShape` and `DoShape` say where its parts stand and where its
branches go.  From this alone it follows, by gates, how often its markers are passed in a call that
ends well (`WhileShape.counted`, `DoShape.counted`). -/

namespace Quill.Machine

open Code

/-! ### Counts -/

/-- How often frames of a method have carried out the instruction at a position. -/
def visits (id pc : Nat) (h : List State) : Nat :=
  h.countP fun s => s.frame.method = id ∧ s.frame.pc = pc

/-- How often frames of a method have come to the end of the code of a condition, with this truth as
its value. -/
def verdicts (id pc : Nat) (c : Bool) (h : List State) : Nat :=
  h.countP fun s => s.frame.method = id ∧ s.frame.pc = pc ∧ s.truth? = some c

/-- How often frames of a method have returned from a position between two others. -/
def returns (p : Image) (id a b : Nat) (h : List State) : Nat :=
  h.countP fun s => s.frame.method = id ∧ (a < s.frame.pc ∧ s.frame.pc < b) ∧
    s.instr? p = some .ret

/-- No label has two markers. -/
def MarkedOnce (m : Method) : Prop :=
  ∀ (label a b : Nat), m.code[a]? = some (.label label) → m.code[b]? = some (.label label) → a = b

/-- The passes of a label are the visits of its marker. -/
theorem passes_eq_visits {p : Image} {id : Nat} {m : Method} (hm : p.methods[id]? = some m)
    (honce : MarkedOnce m) {label pos : Nat} (hi : m.code[pos]? = some (.label label))
    (h : List State) : passes p id label h = visits id pos h := by
  unfold passes visits
  refine List.countP_congr fun s _ => ?_
  simp only [decide_eq_true_eq]
  refine and_congr_right fun hid => ?_
  rw [State.instr?, hid, hm, Option.bind_some]
  constructor
  · intro hpc
    exact honce label _ _ hpc hi
  · rintro rfl
    exact hi

/-- Where the branches of a method go. -/
def Branches (m : Method) (rel : Nat → Nat → Prop) : Prop :=
  ∀ (pc : Nat) i label t, m.code[pc]? = some i → i.target? = some label →
    m.position? label = some t → rel pc t

/-- Control comes to the position `t` from the position `k` only. -/
def ComesFrom (m : Method) (k t : Nat) : Prop :=
  ∀ (pc : Nat) i, m.code[pc]? = some i → Leads m i (pc + 1) t → pc = k

/-- Control comes to a position from before it, or by a branch. -/
theorem comesFrom_of {m : Method} {k t : Nat} {rel : Nat → Nat → Prop} (hbranch : Branches m rel)
    (hfall : ∀ pc i, m.code[pc]? = some i → pc + 1 = t → i.falls = true → pc = k)
    (hrel : ∀ pc, rel pc t → pc = k) : ComesFrom m k t := by
  rintro pc i hi (⟨hfalls, heq⟩ | ⟨label, ht, hpos⟩)
  · exact hfall pc i hi heq.symm hfalls
  · exact hrel pc (hbranch pc i label t hi ht hpos)

/-! ### Gates in code -/

section

variable {u : Setup} {id : Nat} {m : Method}

theorem At.code (hm : u.image.methods[id]? = some m) {s : State} (hid : s.frame.method = id)
    {m' : Method} {i : Instr} (hat : At u s.frame m' i) :
    m' = m ∧ m.code[s.frame.pc]? = some i := by
  obtain ⟨hm', hi⟩ := hat
  rw [hid] at hm'
  obtain rfl := Option.some.inj (hm'.symm.trans hm)
  exact ⟨rfl, hi⟩

theorem GoesOn.or {i : Instr} {s : State} {pc : Nat} (h : GoesOn m i s pc)
    (hi : m.code[s.frame.pc]? = some i) {rel : Nat → Nat → Prop} (hbranch : Branches m rel) :
    i.falls = true ∧ pc = s.frame.pc + 1 ∨ rel s.frame.pc pc := by
  rcases h.leads with hfall | ⟨label, ht, hpos⟩
  · exact .inl hfall
  · exact .inr (hbranch _ i label pc hi ht hpos)

theorem GoesOn.branch {label t pc : Nat} {s : State} (h : GoesOn m (.branchIfTrue label) s pc)
    (hlabel : m.position? label = some t) :
    ∃ c, s.truth? = some c ∧ pc = if c then t else s.frame.pc + 1 := by
  obtain ⟨c, hc, htrue, hfalse⟩ := h.decided label rfl
  refine ⟨c, hc, ?_⟩
  cases c with
  | true => exact Option.some.inj ((htrue rfl).symm.trans hlabel)
  | false => exact hfalse rfl

/-- A piece of code behind the position `a`, up to `b`, with one way in and, but for returns, one
way out. -/
theorem gate_region (hm : u.image.methods[id]? = some m) {a b : Nat} (hlt : a < b)
    (hfirst : m.code[a]? ≠ some .ret)
    (hbranch : Branches m fun pc t => a < t ∧ t ≤ b ↔ a ≤ pc ∧ pc < b) :
    Gate u id (fun pc => a < pc ∧ pc ≤ b) (fun s => s.frame.method = id ∧ s.frame.pc = a)
      (fun s => s.frame.method = id ∧ (s.frame.pc = b ∨ (a < s.frame.pc ∧ s.frame.pc < b) ∧
        s.instr? u.image = some .ret)) where
  start := by simp
  apart := by
    rintro s ⟨-, hpc⟩
    omega
  goes := by
    intro s m' i pc hid hat hret hgoes
    obtain ⟨rfl, hi⟩ := At.code hm hid hat
    have hinstr : s.instr? u.image ≠ some .ret := by
      rw [instr?_eq_some.mpr ⟨m', hat⟩]
      exact fun heq => hret (Option.some.inj heq)
    have hiff : a < pc ∧ pc ≤ b ↔ a ≤ s.frame.pc ∧ s.frame.pc < b := by
      rcases hgoes.or hi hbranch with ⟨-, rfl⟩ | hiff
      · omega
      · exact hiff
    simp only [hid, hinstr, and_false, or_false, true_and, hiff]
    constructor <;> omega
  returns := by
    intro s m' hid hat
    obtain ⟨rfl, hi⟩ := At.code hm hid hat
    have hne : s.frame.pc ≠ a := by
      rintro rfl
      exact hfirst hi
    simp only [hid, instr?_eq_some.mpr ⟨m', hat⟩, and_true, true_and]
    omega
  others := by
    intro s hid
    simp [hid]

/-- A position that control comes to from one other position only, in some of its states. -/
theorem gate_arrival (hm : u.image.methods[id]? = some m) {k t : Nat} (way : State → Prop)
    (hne : k ≠ t) (ht : t ≠ 0) (hk : m.code[k]? ≠ some .ret) (hfrom : ComesFrom m k t)
    (hway : ∀ {s i pc}, s.frame.pc = k → m.code[k]? = some i → GoesOn m i s pc → (pc = t ↔ way s)) :
    Gate u id (fun pc => pc = t) (fun s => s.frame.method = id ∧ s.frame.pc = k ∧ way s)
      (fun s => s.frame.method = id ∧ s.frame.pc = t) where
  start := ht.symm
  apart := by
    rintro s ⟨-, hpc, -⟩ heq
    exact hne (hpc.symm.trans heq)
  goes := by
    intro s m' i pc hid hat hret hgoes
    obtain ⟨rfl, hi⟩ := At.code hm hid hat
    constructor
    · rintro ⟨-, hpc⟩
      exact .inl hpc
    · constructor
      · rintro rfl
        have hpc := hfrom s.frame.pc i hi hgoes.leads
        rw [hpc] at hi
        exact ⟨.inr ⟨hid, hpc, (hway hpc hi hgoes).mp rfl⟩, fun h => hne (hpc.symm.trans h.2)⟩
      · rintro ⟨hpc | ⟨-, hpc, hs⟩, hnot⟩
        · exact absurd ⟨hid, hpc⟩ hnot
        · rw [hpc] at hi
          exact (hway hpc hi hgoes).mpr hs
  returns := by
    intro s m' hid hat
    obtain ⟨rfl, hi⟩ := At.code hm hid hat
    have hpc : s.frame.pc ≠ k := by
      rintro rfl
      exact hk hi
    simp [hid, hpc]
  others := by
    intro s hid
    simp [hid]

theorem gate_branch (hm : u.image.methods[id]? = some m) {k label : Nat}
    (hk : m.code[k]? = some (.branchIfTrue label)) :
    Gate u id (fun _ => False) (fun s => s.frame.method = id ∧ s.frame.pc = k)
      (fun s => (s.frame.method = id ∧ s.frame.pc = k ∧ s.truth? = some true) ∨
        s.frame.method = id ∧ s.frame.pc = k ∧ s.truth? = some false) where
  start := not_false
  apart := fun _ => not_false
  goes := by
    intro s m' i pc hid hat hret hgoes
    obtain ⟨rfl, hi⟩ := At.code hm hid hat
    simp only [hid, true_and, false_or, false_iff, not_and, Classical.not_not]
    constructor
    · rintro (⟨hpc, -⟩ | ⟨hpc, -⟩)
      · exact hpc
      · exact hpc
    · intro hpc
      rw [hpc, hk] at hi
      obtain ⟨c, hc, -⟩ := hgoes.decided label (Option.some.inj hi).symm
      cases c with
      | true => exact .inl ⟨hpc, hc⟩
      | false => exact .inr ⟨hpc, hc⟩
  returns := by
    intro s m' hid hat
    obtain ⟨rfl, hi⟩ := At.code hm hid hat
    have hne : s.frame.pc ≠ k := by
      rintro rfl
      rw [hk] at hi
      cases hi
    simp [hne]
  others := by
    intro s hid
    simp [hid]

end

/-! ### Counts of calls that end well -/

section

variable {c : Call} {limit : Option Nat} {fuel : Nat} {v : Option Value} {r : Run LabelCounter}
  {id : Nat} {m : Method}

theorem countP_or {P Q : State → Prop} [DecidablePred P] [DecidablePred Q] (h : ∀ s, P s → ¬ Q s)
    (l : List State) : l.countP (fun s => P s ∨ Q s) =
      l.countP (fun s => P s) + l.countP fun s => Q s := by
  induction l with
  | nil => rfl
  | cons s l ih =>
    rw [List.countP_cons, List.countP_cons, List.countP_cons, ih]
    have hs := h s
    by_cases hp : P s
    · simp [hp, hs hp]
      omega
    · simp [hp]
      omega

theorem visits_region (hrun : c.run limit fuel = .ended (.ok v) r)
    (hm : c.image.methods[id]? = some m) {a b : Nat} (hlt : a < b)
    (hfirst : m.code[a]? ≠ some .ret)
    (hbranch : Branches m fun pc t => a < t ∧ t ≤ b ↔ a ≤ pc ∧ pc < b) :
    visits id a (c.course limit fuel) =
      visits id b (c.course limit fuel) + returns c.image id a b (c.course limit fuel) := by
  have hbalance := (gate_region (u := ⟨c.image, c.hosts, limit⟩) hm hlt hfirst hbranch).balance hrun
  simp only [and_or_left] at hbalance
  rw [countP_or] at hbalance
  · exact hbalance
  · rintro s ⟨-, hpc⟩ ⟨-, ⟨-, hpc'⟩, -⟩
    omega

theorem visits_branch (hrun : c.run limit fuel = .ended (.ok v) r)
    (hm : c.image.methods[id]? = some m) {k label : Nat}
    (hk : m.code[k]? = some (.branchIfTrue label)) :
    visits id k (c.course limit fuel) =
      verdicts id k true (c.course limit fuel) + verdicts id k false (c.course limit fuel) := by
  have hbalance := (gate_branch (u := ⟨c.image, c.hosts, limit⟩) hm hk).balance hrun
  rw [countP_or] at hbalance
  · exact hbalance
  · rintro s ⟨-, -, htrue⟩ ⟨-, -, hfalse⟩
    rw [htrue] at hfalse
    cases hfalse

/-- Where a branch on a truth goes to, if control comes there from nowhere else. -/
theorem visits_taken (hrun : c.run limit fuel = .ended (.ok v) r)
    (hm : c.image.methods[id]? = some m) {k t label : Nat}
    (hk : m.code[k]? = some (.branchIfTrue label)) (hlabel : m.position? label = some t)
    (hne : k ≠ t) (hne' : t ≠ k + 1) (ht : t ≠ 0) (hfrom : ComesFrom m k t) :
    visits id t (c.course limit fuel) = verdicts id k true (c.course limit fuel) := by
  have hgate := gate_arrival (u := ⟨c.image, c.hosts, limit⟩) hm (fun s => s.truth? = some true)
    hne ht (by simp [hk]) hfrom fun {s i pc} hpc hi hgoes => by
      obtain rfl := Option.some.inj (hk.symm.trans hi)
      obtain ⟨truth, htruth, rfl⟩ := hgoes.branch hlabel
      rw [htruth, hpc]
      cases truth with
      | true => simp
      | false => simpa using hne'.symm
  exact (hgate.balance hrun).symm

/-- The position behind a branch on a truth, if control comes there from nowhere else. -/
theorem visits_fallen (hrun : c.run limit fuel = .ended (.ok v) r)
    (hm : c.image.methods[id]? = some m) {k t label : Nat}
    (hk : m.code[k]? = some (.branchIfTrue label)) (hlabel : m.position? label = some t)
    (hne : t ≠ k + 1) (hfrom : ComesFrom m k (k + 1)) :
    visits id (k + 1) (c.course limit fuel) = verdicts id k false (c.course limit fuel) := by
  have hgate := gate_arrival (u := ⟨c.image, c.hosts, limit⟩) hm (fun s => s.truth? = some false)
    (by omega) (by omega) (by simp [hk]) hfrom fun {s i pc} hpc hi hgoes => by
      obtain rfl := Option.some.inj (hk.symm.trans hi)
      obtain ⟨truth, htruth, rfl⟩ := hgoes.branch hlabel
      rw [htruth, hpc]
      cases truth with
      | true => simpa using hne
      | false => simp
  exact (hgate.balance hrun).symm

/-- Where a jump goes to, if control comes there from nowhere else. -/
theorem visits_jumped (hrun : c.run limit fuel = .ended (.ok v) r)
    (hm : c.image.methods[id]? = some m) {k t label : Nat} (hk : m.code[k]? = some (.jump label))
    (hlabel : m.position? label = some t) (hne : k ≠ t) (ht : t ≠ 0) (hfrom : ComesFrom m k t) :
    visits id t (c.course limit fuel) = visits id k (c.course limit fuel) := by
  have hgate := gate_arrival (u := ⟨c.image, c.hosts, limit⟩) hm (fun _ => True) hne ht (by simp [hk])
    hfrom fun {s i pc} hpc hi hgoes => by
      obtain rfl := Option.some.inj (hk.symm.trans hi)
      rcases hgoes.leads with ⟨hfalls, -⟩ | ⟨l, hl, hpos⟩
      · cases hfalls
      · cases hl
        simp [Option.some.inj (hpos.symm.trans hlabel)]
  have hbalance := hgate.balance hrun
  simp only [and_true] at hbalance
  exact hbalance.symm

end

/-! ### Loops -/

/-- Where the code of a `while` stands: the marker of `test` at `a`, the code of the condition from
there to `k`, the marker of `yes` behind the two branches there, and the body up to `e`, where
control goes back.  The marker of `stop` comes last. -/
structure WhileShape (m : Method) (a k e test yes stop : Nat) : Prop where
  order : a < k ∧ k + 3 ≤ e
  labels : m.code[a]? = some (.label test) ∧ m.code[k + 2]? = some (.label yes) ∧
    m.code[e + 1]? = some (.label stop)
  branch : m.code[k]? = some (.branchIfTrue yes)
  exit : m.code[k + 1]? = some (.jump stop)
  back : m.code[e]? = some (.jump test)
  targets : m.position? test = some a ∧ m.position? yes = some (k + 2) ∧
    m.position? stop = some (e + 1)
  quiet : ∀ pc, a < pc → pc < k → m.code[pc]? ≠ some .ret
  branches : Branches m fun pc t =>
    ((pc < a ∨ e + 2 ≤ pc) ∧ (t < a ∨ e + 2 ≤ t)) ∨
    ((a < pc ∧ pc < k) ∧ a < t ∧ t < k) ∨
    (pc = k ∧ t = k + 2) ∨ (pc = k + 1 ∧ t = e + 1) ∨
    ((k + 3 ≤ pc ∧ pc < e) ∧ k + 3 ≤ t ∧ t < e) ∨ (pc = e ∧ t = a)

/-- Where the code of a `do … while` stands: the marker of `again` at `a`, the body up to `e`, the
marker of `test`, and the code of the condition up to `k`, where control goes back or on to the
marker of `stop`. -/
structure DoShape (m : Method) (a e k again test stop : Nat) : Prop where
  order : a < e ∧ e < k
  labels : m.code[a]? = some (.label again) ∧ m.code[e]? = some (.label test) ∧
    m.code[k + 1]? = some (.label stop)
  branch : m.code[k]? = some (.branchIfTrue again)
  targets : m.position? again = some a
  quiet : ∀ pc, e < pc → pc < k → m.code[pc]? ≠ some .ret
  branches : Branches m fun pc t =>
    ((pc < a ∨ k + 2 ≤ pc) ∧ (t < a ∨ k + 2 ≤ t)) ∨
    ((a < pc ∧ pc < e) ∧ a < t ∧ t < e) ∨
    ((e < pc ∧ pc < k) ∧ e < t ∧ t < k) ∨ (pc = k ∧ t = a)

/-- The markers of a `while` count its rounds: that of the condition is passed as often as the two
behind it together, and these as often as the condition has come out true, and false. -/
structure WhileCounted (p : Image) (id k test yes stop : Nat) (h : List State) : Prop where
  tested : passes p id test h = passes p id yes h + passes p id stop h
  entered : passes p id yes h = verdicts id k true h
  left : passes p id stop h = verdicts id k false h

/-- The markers of a `do … while` count its rounds: every round passes that of the condition, or
else it is left by a return, and the last marker is passed as often as the condition has come out
false. -/
structure DoCounted (p : Image) (id a e k again test stop : Nat) (h : List State) : Prop where
  descending : passes p id again h ≥ passes p id test h ∧ passes p id test h ≥ passes p id stop h
  left : passes p id stop h = verdicts id k false h
  returned : passes p id again h - passes p id test h = returns p id a e h

section

variable {c : Call} {limit : Option Nat} {fuel : Nat} {v : Option Value} {r : Run LabelCounter}
  {id : Nat} {m : Method}

theorem returns_eq_zero {p : Image} (hm : p.methods[id]? = some m) {a b : Nat}
    (hquiet : ∀ pc, a < pc → pc < b → m.code[pc]? ≠ some .ret) (h : List State) :
    returns p id a b h = 0 := by
  unfold returns
  rw [List.countP_eq_zero]
  intro s _ hs
  obtain ⟨hid, ⟨hlow, hhigh⟩, hret⟩ := of_decide_eq_true hs
  rw [State.instr?, hid, hm, Option.bind_some] at hret
  exact hquiet s.frame.pc hlow hhigh hret

/-- The condition of a loop is left at the branch behind it only. -/
theorem visits_condition (hrun : c.run limit fuel = .ended (.ok v) r)
    (hm : c.image.methods[id]? = some m) {a k : Nat} (hlt : a < k)
    (hfirst : m.code[a]? ≠ some .ret)
    (hbranch : Branches m fun pc t => a < t ∧ t ≤ k ↔ a ≤ pc ∧ pc < k)
    (hquiet : ∀ pc, a < pc → pc < k → m.code[pc]? ≠ some .ret) :
    visits id a (c.course limit fuel) = visits id k (c.course limit fuel) := by
  rw [visits_region hrun hm hlt hfirst hbranch, returns_eq_zero hm hquiet, Nat.add_zero]

theorem WhileShape.counted {a k e test yes stop : Nat} (h : WhileShape m a k e test yes stop)
    (hrun : c.run limit fuel = .ended (.ok v) r) (hm : c.image.methods[id]? = some m)
    (honce : MarkedOnce m) : WhileCounted c.image id k test yes stop (c.course limit fuel) := by
  obtain ⟨hak, hke⟩ := h.order
  obtain ⟨htestmark, hyesmark, hstopmark⟩ := h.labels
  obtain ⟨-, hyespos, hstoppos⟩ := h.targets
  have hcond := visits_condition hrun hm hak (by simp [htestmark]) (fun pc i label t hi ht hpos => by
    have hrel := h.branches pc i label t hi ht hpos
    omega) h.quiet
  have hdecide := visits_branch hrun hm h.branch
  -- The instructions before the markers of the body and of the end are jumps: control does not fall
  -- into them.
  have hyes : visits id (k + 2) (c.course limit fuel) =
      verdicts id k true (c.course limit fuel) := by
    refine visits_taken hrun hm h.branch hyespos (by omega) (by omega) (by omega) ?_
    refine comesFrom_of h.branches (fun pc i hi heq hfalls => ?_) fun pc hrel => by omega
    obtain rfl : pc = k + 1 := by omega
    obtain rfl := Option.some.inj (hi.symm.trans h.exit)
    cases hfalls
  have hno : visits id (k + 1) (c.course limit fuel) =
      verdicts id k false (c.course limit fuel) := by
    refine visits_fallen hrun hm h.branch hyespos (by omega) ?_
    exact comesFrom_of h.branches (fun pc i hi heq _ => by omega) fun pc hrel => by omega
  have hstop : visits id (e + 1) (c.course limit fuel) =
      visits id (k + 1) (c.course limit fuel) := by
    refine visits_jumped hrun hm h.exit hstoppos (by omega) (by omega) ?_
    refine comesFrom_of h.branches (fun pc i hi heq hfalls => ?_) fun pc hrel => by omega
    obtain rfl : pc = e := by omega
    obtain rfl := Option.some.inj (hi.symm.trans h.back)
    cases hfalls
  constructor
  all_goals simp only [passes_eq_visits hm honce htestmark, passes_eq_visits hm honce hyesmark,
    passes_eq_visits hm honce hstopmark]
  · omega
  · exact hyes
  · exact hstop.trans hno

theorem DoShape.counted {a e k again test stop : Nat} (h : DoShape m a e k again test stop)
    (hrun : c.run limit fuel = .ended (.ok v) r) (hm : c.image.methods[id]? = some m)
    (honce : MarkedOnce m) :
    DoCounted c.image id a e k again test stop (c.course limit fuel) := by
  obtain ⟨hae, hek⟩ := h.order
  obtain ⟨hagainmark, htestmark, hstopmark⟩ := h.labels
  have hbody := visits_region hrun hm hae (by simp [hagainmark]) fun pc i label t hi ht hpos => by
    have hrel := h.branches pc i label t hi ht hpos
    omega
  have hcond := visits_condition hrun hm hek (by simp [htestmark]) (fun pc i label t hi ht hpos => by
    have hrel := h.branches pc i label t hi ht hpos
    omega) h.quiet
  have hdecide := visits_branch hrun hm h.branch
  have hstop : visits id (k + 1) (c.course limit fuel) =
      verdicts id k false (c.course limit fuel) := by
    refine visits_fallen hrun hm h.branch h.targets (by omega) ?_
    exact comesFrom_of h.branches (fun pc i hi heq _ => by omega) fun pc hrel => by omega
  constructor
  all_goals simp only [passes_eq_visits hm honce hagainmark, passes_eq_visits hm honce htestmark,
    passes_eq_visits hm honce hstopmark]
  · constructor
    · omega
    · omega
  · exact hstop
  · omega

end

end Quill.Machine
