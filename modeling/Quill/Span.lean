/-! # Source spans

A span is a stretch of source text between two positions, each a line and a column counted from
one.  The span of zeros is the *dummy* span of a tree that no source text stands behind. -/

namespace Quill

structure Position where
  line : Nat
  column : Nat
  deriving DecidableEq, Repr, Inhabited

namespace Position

/-- The order of positions in a text. -/
def le (p q : Position) : Bool := p.line < q.line || (p.line == q.line && p.column ≤ q.column)

def earlier (p q : Position) : Position := if p.le q then p else q

def later (p q : Position) : Position := if p.le q then q else p

/-- The text `line:column`. -/
def text (p : Position) : String := s!"{p.line}:{p.column}"

end Position

structure Span where
  start : Position
  stop : Position
  deriving DecidableEq, Repr, Inhabited

namespace Span

/-- The span from one line and column to another. -/
def of (startLine startColumn stopLine stopColumn : Nat) : Span :=
  ⟨⟨startLine, startColumn⟩, ⟨stopLine, stopColumn⟩⟩

/-- The span of what has no source text. -/
def dummy : Span := of 0 0 0 0

/-- The span says nothing about a source text. -/
def isDummy (s : Span) : Bool := s = dummy

/-- The smallest span that covers two spans; a dummy span covers nothing. -/
def merge (s t : Span) : Span :=
  if s.isDummy then t
  else if t.isDummy then s
  else ⟨s.start.earlier t.start, s.stop.later t.stop⟩

/-- The position where a span starts, as messages show it. -/
def text (s : Span) : String := s.start.text

def rangeText (s : Span) : String := s!"{s.start.text}..{s.stop.text}"

@[simp] theorem merge_dummy_left (s : Span) : dummy.merge s = s := by
  simp [merge, isDummy]

@[simp] theorem merge_dummy_right (s : Span) : s.merge dummy = s := by
  by_cases h : s = dummy <;> simp [merge, isDummy, h]

end Span

end Quill
