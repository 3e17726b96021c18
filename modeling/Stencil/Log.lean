import Stencil.Render.Rendering
import Stencil.Text.Digits
import Stencil.Text.Quoted

/-!
# The log

What a rendering notes is logged at a level, on the channel of the part of the program that noted
it. A line of the log is a message with the values of named fields.
-/

namespace Stencil

/-- How much a line of the log matters. -/
inductive Level where
  | error
  | warn
  | info
  | debug
  | trace
  deriving DecidableEq, Repr

namespace Level

/-- The more a level shows, the greater its rank. -/
def rank : Level → Nat
  | .error => 1
  | .warn => 2
  | .info => 3
  | .debug => 4
  | .trace => 5

/-- The level's name in the log. -/
def name : Level → String
  | .error => "ERROR"
  | .warn => "WARN"
  | .info => "INFO"
  | .debug => "DEBUG"
  | .trace => "TRACE"

/-- The rank that a text asks for, zero to show nothing. A level is given by its name in letters of
any case or by its rank, and the empty text asks for errors. -/
def rank? (s : String) : Option Nat :=
  match Text.number? s with
  | some n => if n ≤ 5 then some n else none
  | none =>
    [("", 1), ("error", 1), ("warn", 2), ("info", 3), ("debug", 4), ("trace", 5), ("off", 0)].lookup
      (String.ofList (s.toList.map Char.toLower))

end Level

namespace Event

/-- The level that a step is logged at. -/
def level : Event → Level
  | .visit _ => .trace
  | .emptyLoop _ | .loop .. | .includedFile .. | .boundContent .. => .debug
  | .missingFile .. => .warn

/-- The channel that a step is logged on. -/
def channel : Event → String
  | .boundContent .. => "tmpl"
  | _ => "renderer::engine"

/-- The names of what the line says of the step. -/
def fields : Event → List String
  | .visit _ => ["message", "tag", "at"]
  | .emptyLoop _ => ["message", "name"]
  | .loop .. => ["message", "name", "iterations"]
  | .missingFile .. => ["message", "path", "error"]
  | .includedFile .. => ["message", "path", "bytes"]
  | .boundContent .. => ["message", "var", "bytes"]

/-- The step in words. -/
def text : Event → String
  | .visit tag => s!"dispatch tag={tag.text} at={tag.span.start}"
  | .emptyLoop name => s!"loop is empty name={Text.quoted name}"
  | .loop name rounds => s!"loop name={Text.quoted name} iterations={rounds}"
  | .missingFile path why => s!"cannot load include path={path.text} error={why.message}"
  | .includedFile path size => s!"include path={path.text} bytes={size}"
  | .boundContent name size => s!"bound rendered content var={name} bytes={size}"

/-- The line of the log. -/
def line (e : Event) : String := s!"{e.level.name} {e.text}"

end Event

end Stencil
