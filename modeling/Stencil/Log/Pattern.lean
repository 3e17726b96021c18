import Stencil.Decimal.Binary64
import Stencil.Log.Pattern.Groups
import Stencil.Log.Pattern.Mode

/-!
# Patterns

A pattern for the value of a field is a number or a regular expression. Values are never matched, so
that only its form matters: which texts are patterns, not what fits them.
-/

namespace Stencil.Log.Pattern

/-- Whether a regular expression can be used. -/
def Expression.isUsable (e : Expression) : Bool :=
  e.within levelLimit && (Mode.standard.behind? e).isSome

/-- Whether a text is a pattern. -/
def isPattern (s : String) : Bool :=
  (Binary64.ofText? s.toList).isSome || (Expression.ofChars? s.toList).any (·.isUsable)

end Stencil.Log.Pattern
