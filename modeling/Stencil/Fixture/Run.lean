import Stencil.Fixture
import Stencil.Render
import Stencil.Text.Blank
import Stencil.Text.Quoted

/-!
# Running a fixture

A fixture is rendered with its own data, and files that it includes are looked up beside it. It
passes if the rendering ends as expected: with a fault of the kind or the message that is asked
for, or with the output that is asked for.
-/

namespace Stencil

/-- Why a fixture does not pass. -/
inductive Failure where
  | unreadable (why : FileFault)
  | malformed (why : FixtureFault)
  | data (why : ShapeFault)
  /-- The blocks were to be out of order, and the rendering stopped for another reason. -/
  | otherThanParse (e : RenderFault)
  /-- The blocks were to be out of order and are not. -/
  | parsed
  /-- The rendering stopped with another message. -/
  | otherError (expected : String) (e : RenderFault)
  /-- The rendering was to stop and did not. -/
  | noError (expected : String)
  /-- The rendering was not to stop. -/
  | error (e : RenderFault)
  | output (expected actual : String)
  deriving DecidableEq, Repr

/-- What went wrong, in words. -/
def Failure.message : Failure → String
  | .unreadable why => s!"cannot read file: {why.message}"
  | .malformed why => s!"frontmatter error: {why.message}"
  | .data why => s!"data error: {why.message}"
  | .otherThanParse e => s!"expected parse error, got render error: {e.message}"
  | .parsed => "expected parse error, but parsing succeeded"
  | .otherError expected e => s!"expected error containing \"{expected}\", got: {e.message}"
  | .noError expected => s!"expected error containing \"{expected}\", but rendering succeeded"
  | .error e => s!"unexpected render error: {e.message}"
  | .output expected actual =>
    "output mismatch\n  expected: " ++ Text.quoted expected ++ "\n  actual:   "
      ++ Text.quoted actual

namespace Expectation

/-- Whether the rendering of a template whose blocks were to be out of order fails, and how. -/
def judgeParseError : Except RenderFault Chain → Option Failure
  | .error (.blocks ..) => none
  | .error e => some (.otherThanParse e)
  | .ok _ => some .parsed

/-- Compares the output, read as a text, with the one that is expected. -/
def judgeOutput (x : Expectation) (expected : String) (output : Bytes) : Option Failure :=
  let form : String → String := if x.exact then id else Text.trim
  let actual := form (Utf8.lossy output)
  let expected := form expected
  if actual = expected then none else some (.output expected actual)

/-- Why the rendering is not as expected, if it is not. -/
def judge (x : Expectation) (result : Except RenderFault Chain) : Option Failure :=
  if x.parseError then judgeParseError result
  else
    match x.error, x.output, result with
    | some expected, _, .error e =>
      if occursIn expected.toList e.message.toList then none else some (.otherError expected e)
    | some expected, _, .ok _ => some (.noError expected)
    | none, _, .error e => some (.error e)
    | none, some expected, .ok out => x.judgeOutput expected out.bytes
    | none, none, .ok _ => none

end Expectation

/-- What became of a fixture. -/
structure Verdict where
  path : Path
  description : Option String
  failure : Option Failure
  /-- What the rendering noted. -/
  events : List Event
  deriving Repr

namespace Verdict

/-- Whether the fixture passed. -/
def passed (v : Verdict) : Bool := v.failure.isNone

/-- The end of a fixture's file name. -/
def suffix : String := ".test.tmpl"

/-- What a fixture is called: its description, or its file name without the end. -/
def label (v : Verdict) : String :=
  match v.description with
  | some d => d
  | none =>
    match v.path.fileName?.map Utf8.decode with
    | some (.ok name) => String.ofList (dropSuffixes suffix.toList name.toList)
    | _ => "?"

end Verdict

namespace Fixture

/-- The renderer of a fixture. -/
def renderer (path : Path) : Renderer :=
  { Renderer.standard with baseDir := path.parent?.getD (.ofString ".") }

/-- Runs the fixture at a path. -/
def run (files : Files) (path : Path) : Verdict :=
  match files.readText path with
  | .error why => ⟨path, none, some (.unreadable why), []⟩
  | .ok text =>
    match ofText text with
    | .error why => ⟨path, none, some (.malformed why), []⟩
    | .ok fixture =>
      let x := fixture.expectation
      match Bindings.ofTable x.data with
      | .error why => ⟨path, x.description, some (.data why), []⟩
      | .ok b =>
        let r := (renderer path).render files (.ofString fixture.source) b
        ⟨path, x.description, x.judge r.result, r.events⟩

end Fixture

end Stencil
