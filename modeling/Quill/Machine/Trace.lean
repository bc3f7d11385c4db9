import Quill.Code.Listing
import Quill.Machine.Observer

/-! # Traces

The observer that writes down every instruction: the method, the position in its code, and the
text of the instruction. -/

namespace Quill.Machine

abbrev Trace := Array String

/-- The observer that writes a line for each instruction. -/
def Trace.observer : Observer Trace where
  onStep t m pc i := t.push s!"{m.name}:{pc} {i.text}"
  onLabel t _ _ := t

/-- The observer that writes nothing. -/
def Trace.silent : Observer Trace := ⟨fun t _ _ _ => t, fun t _ _ => t⟩

end Quill.Machine
