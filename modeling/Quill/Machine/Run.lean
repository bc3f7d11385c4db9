import Quill.Machine.Observer
import Quill.Machine.Step

/-! # Runs

A run carries out one instruction after the other until the first frame returns or a fault
occurs.  `advance` is one instruction; `go` is at most so many.  With a step limit the
instruction after the last allowed one is not carried out, and the run ends in a fault.  A machine
(`Vm`) makes one run after the other, and tells how many instructions the last one has begun. -/

namespace Quill.Machine

open Code

/-- What a run needs besides its state: the image, the host's routines, and a limit on the number
of instructions, if there is one. -/
structure Setup where
  image : Image
  hosts : Hosts
  limit : Option Nat

/-- A run: the state of the machine, the number of instructions begun, and what the observer has
seen. -/
structure Run (σ : Type) where
  state : State
  steps : Nat
  seen : σ

/-- How a run ends: with a result, which may be no value, or a fault. -/
abbrev Outcome := Except Fault (Option Value)

/-- A run after some instructions: ended, or to be continued. -/
inductive Progress (σ : Type) where
  | ended (outcome : Outcome) (run : Run σ)
  | running (run : Run σ)

/-- The number of instructions begun is over the limit. -/
def Setup.exceeded (u : Setup) (steps : Nat) : Option Nat := u.limit.filter (· < steps)

def advance (u : Setup) (o : Observer σ) (r : Run σ) : Progress σ :=
  let method := r.state.frame.method
  let pc := r.state.frame.pc
  match u.image.methods[method]? with
  | none => .ended (.error (.invalidProgram (.noMethod method))) r
  | some m =>
    match m.code[pc]? with
    | none => .ended (.error (.invalidProgram (.pastEnd m.name))) r
    | some i =>
      let steps := r.steps + 1
      match u.exceeded steps with
      | some limit => .ended (.error (.stepLimitExceeded limit)) { r with steps }
      | none =>
        let ⟨state, _, seen⟩ := r
        let seen := o.see seen m pc i
        let state := { state with frame := { state.frame with pc := pc + 1 } }
        match i with
        | .ret =>
          match leave m state with
          | .ok (some result) state => .ended (.ok result) { state, steps, seen }
          | .ok none state => .running { state, steps, seen }
          | .error fault state => .ended (.error fault) { state, steps, seen }
        | i =>
          match step u.image u.hosts m i state with
          | .ok _ state => .running { state, steps, seen }
          | .error fault state => .ended (.error fault) { state, steps, seen }

/-- At most so many instructions of a run. -/
def go (u : Setup) (o : Observer σ) : Nat → Run σ → Progress σ
  | 0, r => .running r
  | n + 1, r =>
    match advance u o r with
    | .ended outcome r => .ended outcome r
    | .running r => go u o n r

/-- The next instruction reads a line, and no line is there to be read. -/
def awaitsLine (p : Image) (s : State) : Bool :=
  match p.methods[s.frame.method]?.bind (·.code[s.frame.pc]?) with
  | some (.intrinsic .readLn) => s.console.input.isEmpty
  | _ => false

/-! ### Starting -/

/-- The first state of a call of a method with arguments. -/
def start (p : Image) (heap : Heap) (console : Console) (method : Nat) (args : List Value) :
    Except Fault State :=
  match callee p method args.length with
  | .error e => .error e
  | .ok m =>
    let (frame, heap) := newFrame m heap 0 method args
    .ok { stack := #[], frame, callers := [], heap, console }

def startEntry (p : Image) (heap : Heap) (console : Console) : Except Fault State :=
  match p.entry with
  | none => .error (.invalidProgram .noEntry)
  | some method => start p heap console method []

/-- At most so many instructions of a program; `none` if it has not ended by then. -/
def runProgram (u : Setup) (o : Observer σ) (seen : σ) (console : Console) (fuel : Nat) :
    Option (Outcome × Run σ) :=
  match startEntry u.image .bare console with
  | .error e => some (.error e, { state := { (default : State) with console }, steps := 0, seen })
  | .ok state =>
    match go u o fuel { state, steps := 0, seen } with
    | .ended outcome r => some (outcome, r)
    | .running _ => none

/-! ### Machines -/

/-- A machine between its runs: what it runs, the arrays that its runs share, and the number of
instructions that the last run has begun. -/
structure Vm where
  setup : Setup
  heap : Heap
  steps : Nat

namespace Vm

def new (setup : Setup) (heap : Heap) : Vm := { setup, heap, steps := 0 }

/-- A run of a method is started; counting starts anew, also if the method cannot be called. -/
def start (vm : Vm) (console : Console) (method : Nat) (args : List Value) :
    Except Fault State × Vm :=
  (Machine.start vm.setup.image vm.heap console method args, { vm with steps := 0 })

/-- A run of the program is started; without an entry the machine stays as it is. -/
def startEntry (vm : Vm) (console : Console) : Except Fault State × Vm :=
  match vm.setup.image.entry with
  | none => (.error (.invalidProgram .noEntry), vm)
  | some method => vm.start console method []

def after (vm : Vm) (r : Run σ) : Vm := { vm with heap := r.state.heap, steps := r.steps }

/-- At most so many instructions of a run that has been started, and the machine after it; `none`
if it has not ended by then. -/
def finish (o : Observer σ) (seen : σ) (console : Console) (fuel : Nat) :
    Except Fault State × Vm → Option (Outcome × Run σ × Vm)
  | (.error e, vm) =>
    some (.error e, { state := { (default : State) with heap := vm.heap, console }, steps := 0,
                      seen }, vm)
  | (.ok state, vm) =>
    match go vm.setup o fuel { state, steps := 0, seen } with
    | .ended outcome r => some (outcome, r, vm.after r)
    | .running _ => none

def runMethod (vm : Vm) (o : Observer σ) (seen : σ) (console : Console) (method : Nat)
    (args : List Value) (fuel : Nat) : Option (Outcome × Run σ × Vm) :=
  finish o seen console fuel (vm.start console method args)

def run (vm : Vm) (o : Observer σ) (seen : σ) (console : Console) (fuel : Nat) :
    Option (Outcome × Run σ × Vm) :=
  finish o seen console fuel (vm.startEntry console)

end Vm

end Quill.Machine
