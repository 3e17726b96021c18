import Stencil.Log.Directive

/-!
# Filters

A filter is a list of directives. The closest one about a step decides whether it is shown, and a
step that none is about is not shown.
-/

namespace Stencil.Log

/-- Which lines are shown. -/
abbrev Filter := List Directive

namespace Filter

/-- The filter that shows lines up to a level. -/
def upTo (l : Level) : Filter := [⟨none, none, l.rank⟩]

/-- Reads directives with commas between them, none if one of them is malformed. No directive at
all asks for errors. -/
def ofText? (s : String) : Option Filter :=
  let parts := (pieces ',' s.toList).filter (!·.isEmpty)
  match parts.mapM fun cs => Directive.ofText? (String.ofList cs) with
  | none => none
  | some [] => some (upTo .error)
  | some ds => some (ds.filterMap id)

/-- The directive that counts for a step: the closest one, and of equally close ones the last. -/
def directive? (f : Filter) (e : Event) : Option Directive :=
  (f.filter (·.fits e)).foldl (fun best? d =>
    match best? with
    | some best => if d.asClose best then some d else some best
    | none => some d) none

/-- Whether a step is shown. -/
def shows (f : Filter) (e : Event) : Bool :=
  match f.directive? e with
  | some d => e.level.rank ≤ d.rank
  | none => false

/-- The filter for a number of requests for more, which a text overrides where it can be read. -/
def ofRequests (more : Nat) (text : Option String) : Filter :=
  match text.bind ofText? with
  | some f => f
  | none => if more = 0 then upTo .warn else if more = 1 then upTo .debug else upTo .trace

end Filter

end Stencil.Log
