import Quill.Proofs.Compiled
import Quill.Proofs.Lowering.Mirror
import Quill.Proofs.Typing.Order

/-! # The order of the functions does not matter

Functions can be declared in any order.  Where no two have the same name and number of arguments,
a program with its functions in another order gets the same reports, and when it is compiled, the
two images run alike: only the numbers of scopes, identifiers, methods, host routines, texts and
labels change, and no run can tell (`reorder_functions`). -/

namespace Quill

open Code Lowering Machine Typing

/-- Checking keeps the names and numbers of arguments of the functions. -/
theorem Compiles.nodup {p : Program} {image : Image} (h : Compiles p image) :
    ((checkFresh p).1.functions.map fun f => (f.name, f.arity)).Nodup := h.imageOf.1.distinct

/-- A program with its functions in another order has the same reports, in another order.  If there
are none and both programs can be lowered and started, their runs on the same console, with the same
host routines and the same limit on steps, end after as many instructions, with the same result or
the same fault, the same arrays and the same console, or go on alike. -/
theorem reorder_functions {σ τ : Type} (p : Program) {fs : List FunctionDecl}
    (hperm : p.functions.Perm fs)
    (hdistinct : (p.functions.map fun f => (f.name, f.arity)).Nodup) :
    (checkFresh p).2.log.reports.Perm (checkFresh { p with functions := fs }).2.log.reports ∧
      ∀ {image image' : Image}, Compiles p image →
        lowerProgram (checkFresh { p with functions := fs }).1 = .ok image' →
        image'.entry.isSome = true →
          ∀ (hosts : Hosts) (limit : Option Nat) (o : Observer σ) (o' : Observer τ) (seen : σ)
            (seen' : τ) (console : Console) (fuel : Nat),
            (runProgram ⟨image, hosts, limit⟩ o seen console fuel).map summary =
              (runProgram ⟨image', hosts, limit⟩ o' seen' console fuel).map summary := by
  obtain ⟨hfunctions, hreports⟩ :=
    checkFresh_perm (p := p) (q := { p with functions := fs }) rfl hperm hdistinct
  refine ⟨hreports, fun {image image'} hp hq hentry hosts limit o o' seen seen' console fuel => ?_⟩
  have hmirror := lowerProgram_mirror hp.lowered hq (findFunction?_perm hfunctions hp.nodup)
    hp.entry hentry
  exact hmirror.runProgram hosts limit o o' seen seen' console fuel

/-- The program `nearProgram` from its last function to its first. -/
def nearProgramReversed : Program := { nearProgram with functions := nearProgram.functions.reverse }

def nearImageReversed : Image :=
  (lowerProgram (checkFresh nearProgramReversed).1).toOption.getD default

theorem nearProgram_reversed :
    nearImage ≠ nearImageReversed ∧
      (runProgram ⟨nearImage, Hosts.standard, none⟩ Observer.blind () (.ofLines []) 40).map
          summary =
        (runProgram ⟨nearImageReversed, Hosts.standard, none⟩ Observer.blind () (.ofLines [])
          40).map summary := by
  have hperm : nearProgram.functions.Perm nearProgram.functions.reverse :=
    (List.reverse_perm _).symm
  refine ⟨by decide +kernel, ?_⟩
  exact (reorder_functions nearProgram hperm (by decide)).2 nearProgram_compiled
    (by decide +kernel) (by decide +kernel) Hosts.standard none Observer.blind Observer.blind () ()
    (.ofLines []) 40

end Quill
