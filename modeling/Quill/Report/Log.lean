import Quill.Report.Basic

/-! # Logs of reports

A log keeps the reports on the wording of a program apart from those on its meaning; readers see
the former first. -/

namespace Quill.Report

/-- The reports of a compilation, in the order in which they were made, by kind. -/
structure Log where
  wording : Array Report
  meaning : Array Report
  deriving DecidableEq, Repr, Inhabited

namespace Log

def empty : Log := ⟨#[], #[]⟩

def add (l : Log) (r : Report) : Log :=
  match r.kind with
  | .wording => { l with wording := l.wording.push r }
  | .meaning => { l with meaning := l.meaning.push r }

def addAll (l : Log) (rs : List Report) : Log := rs.foldl add l

/-- Every report, those on wording first. -/
def toArray (l : Log) : Array Report := l.wording ++ l.meaning

def size (l : Log) : Nat := l.wording.size + l.meaning.size

def hasWording (l : Log) : Bool := !l.wording.isEmpty

def hasMeaning (l : Log) : Bool := !l.meaning.isEmpty

def hasReports (l : Log) : Bool := l.hasWording || l.hasMeaning

def isEmpty (l : Log) : Bool := l.size = 0

/-- The number of reports with a code. -/
def count (l : Log) (code : Code) : Nat := (l.toArray.filter (·.code = code)).size

@[simp] theorem size_toArray (l : Log) : l.toArray.size = l.size := by
  simp [toArray, size]

@[simp] theorem size_add (l : Log) (r : Report) : (l.add r).size = l.size + 1 := by
  unfold add size
  split <;> simp <;> omega

end Log

end Quill.Report
