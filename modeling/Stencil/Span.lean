/-!
# Spans

A span is a stretch of a source, given by the offset of its first octet and the offset behind its
last one.
-/

namespace Stencil

/-- The octets of a source from `start` up to, and without, `stop`. -/
structure Span where
  start : Nat
  stop : Nat
  deriving DecidableEq, Repr, Inhabited

end Stencil
