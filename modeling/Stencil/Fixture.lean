import Stencil.Data

/-!
# Fixture files

A fixture is a template with its expectation in front: between two lines of `---` stands a TOML
document that gives the data and says what the rendering has to give, and the template follows. The
two parts are divided at the first line feed before `---`.
-/

namespace Stencil

/-- What a fixture expects. -/
structure Expectation where
  description : Option String
  data : Toml.Table
  /-- The output, up to white space at its ends unless it is exact. -/
  output : Option String
  exact : Bool
  /-- A part of the message that the rendering stops with. -/
  error : Option String
  /-- Whether the blocks of a template have to be out of order. -/
  parseError : Bool
  deriving Repr, Inhabited

/-- A template with its expectation. -/
structure Fixture where
  expectation : Expectation
  source : String
  deriving Repr, Inhabited

/-- Why a text is no fixture. -/
inductive FixtureFault where
  | noOpening
  | noClosing
  | notToml (why : Toml.Fault)
  deriving DecidableEq, Repr

/-- What is wrong, in words. -/
def FixtureFault.message : FixtureFault → String
  | .noOpening => "missing opening --- frontmatter delimiter"
  | .noClosing => "missing closing --- frontmatter delimiter"
  | .notToml why => s!"TOML parse error: {why.message}"

namespace Expectation

/-- A text that may be missing. -/
def text? (t : Toml.Table) (key : String) : Option (Option String) :=
  match Named.get? key t with
  | none => some none
  | some (.string s) => some (some s)
  | some _ => none

/-- A truth value that is false if it is missing. -/
def flag? (t : Toml.Table) (key : String) : Option Bool :=
  match Named.get? key t with
  | none => some false
  | some (.boolean b) => some b
  | some _ => none

/-- A table of data that is empty if it is missing. A point in time is a marked table here. -/
def table? (t : Toml.Table) (key : String) : Option Toml.Table :=
  match Named.get? key t with
  | none => some []
  | some (.table entries) => Toml.Table.settled? entries
  | some (.datetime d) => some [(Toml.Datetime.mark, .string d.text)]
  | some _ => none

/-- The expectation that a table states. Other keys do not matter. -/
def ofTable? (t : Toml.Table) : Option Expectation := do
  return {
    description := ← text? t "description"
    data := ← table? t "data"
    output := ← text? t "expect_output"
    exact := ← flag? t "exact"
    error := ← text? t "expect_error"
    parseError := ← flag? t "expect_parse_error" }

/-- The expectation that a document states. -/
def ofText (text : String) : Except Toml.Fault Expectation :=
  match Toml.Document.written text with
  | .error e => .error e
  | .ok t =>
    match ofTable? t with
    | some x => .ok x
    | none => .error .whole

end Expectation

namespace Fixture

/-- The characters without the byte order marks in front. -/
def dropMarks (cs : List Char) : List Char := cs.dropWhile (· == '\uFEFF')

/-- The characters without a line end in front. -/
def dropLineEnd : List Char → List Char
  | '\n' :: cs => cs
  | '\r' :: '\n' :: cs => cs
  | cs => cs

/-- The characters without the carriage returns at their end. -/
def dropReturns (cs : List Char) : List Char := (cs.reverse.dropWhile (· == '\r')).reverse

/-- What stands before the first line feed that `---` follows, and what stands behind that. -/
def divide : List Char → Option (List Char × List Char)
  | '\n' :: '-' :: '-' :: '-' :: cs => some ([], cs)
  | c :: cs => (divide cs).map fun (front, back) => (c :: front, back)
  | [] => none

/-- The document and the template of a fixture. -/
def parts : List Char → Except FixtureFault (List Char × List Char)
  | '-' :: '-' :: '-' :: cs =>
    match divide (dropLineEnd cs) with
    | some (front, back) => .ok (dropReturns front, dropLineEnd back)
    | none => .error .noClosing
  | _ => .error .noOpening

/-- Reads a fixture. -/
def ofText (text : String) : Except FixtureFault Fixture := do
  let (front, back) ← parts (dropMarks text.toList)
  let x ← (Expectation.ofText (String.ofList front)).mapError .notToml
  return ⟨x, String.ofList back⟩

end Fixture

end Stencil
