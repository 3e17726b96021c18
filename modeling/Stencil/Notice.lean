import Stencil.Log.Filter

/-!
# Notices

What the program has to say beside its output, in order: lines, and steps to be logged. Steps that
the filter does not show are left out in the end.
-/

namespace Stencil

/-- Something to say. -/
inductive Notice where
  | line (s : String)
  | log (e : Event)
  deriving DecidableEq, Repr

namespace Notice

/-- The text of a notice, if it is shown. -/
def text? (f : Log.Filter) : Notice → Option String
  | .line s => some s
  | .log e => if f.shows e then some e.line else none

end Notice

end Stencil
