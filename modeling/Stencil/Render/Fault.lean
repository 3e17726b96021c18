import Stencil.Template
import Stencil.Files

/-!
# Why a rendering stops

Every fault but an unreadable template points at tags, by their spans in the file that the path
names, or in the source that was rendered directly where there is no path.
-/

namespace Stencil

/-- Why a rendering stops. -/
inductive RenderFault where
  /-- Blocks of a template do not match. -/
  | blocks (faults : List BlockFault) (path : Option Path)
  /-- An else that divides no block. -/
  | strayElse (span : Span) (path : Option Path)
  /-- A closing tag that closes no block. -/
  | strayClose (kind : Kind) (span : Span) (path : Option Path)
  /-- The template itself cannot be read. -/
  | unreadable (path : Path) (why : FileFault)
  /-- The tag would open one level more than the limit allows. -/
  | tooDeep (limit : Nat) (span : Span) (path : Option Path)
  deriving DecidableEq, Repr

namespace RenderFault

/-- The first of the faults, and how many more there are. -/
def summary : List BlockFault → String
  | [] => "template parse failed"
  | [e] => e.message
  | e :: es => s!"{e.message} (and {es.length} more)"

/-- What is wrong, in words. -/
def message : RenderFault → String
  | .blocks faults _ => summary faults
  | .strayElse .. => "got TMPL_ELSE without TMPL_IF or TMPL_UNLESS"
  | .strayClose kind .. => "closing tag </" ++ kind.keyword ++ "> has no matching opening tag"
  | .unreadable path why => s!"cannot read '{path.text}': {why.message}"
  | .tooDeep limit .. => s!"template nesting deeper than {limit} levels"

/-- The file that the fault is about. -/
def path? : RenderFault → Option Path
  | .blocks _ path => path
  | .strayElse _ path => path
  | .strayClose _ _ path => path
  | .unreadable path _ => some path
  | .tooDeep _ _ path => path

/-- The tag that is at fault, the first one if there are more. -/
def span? : RenderFault → Option Span
  | .blocks faults _ => faults.head?.map (·.span)
  | .strayElse span _ => some span
  | .strayClose _ span _ => some span
  | .unreadable .. => none
  | .tooDeep _ span _ => some span

end RenderFault

end Stencil
