import Stencil.Bindings
import Stencil.Files
import Stencil.Toml.Document

/-!
# Binding sets from data

The scalars of a table become variables and its arrays of tables become loops, entry by entry; no
other shape has a place in a binding set. Data files are merged in order, and assignments of the
form `NAME=VALUE` come after them, so that of two sources of a name the later one wins.
-/

namespace Stencil

/-- Why a table is no binding set. -/
inductive ShapeFault where
  /-- An array's item is no table. -/
  | looseItem (key : String) (found : String)
  /-- A table is the value of a key. -/
  | tableValue (key : String)
  /-- The fault is in an item of the array of this key. -/
  | within (key : String) (e : ShapeFault)
  deriving DecidableEq, Repr

/-- What is wrong, in words. -/
def ShapeFault.message : ShapeFault → String
  | .looseItem key found => s!"'{key}': loop items must be tables, found {found}"
  | .tableValue key => s!"'{key}': tables are only allowed as loop items ([[{key}]])"
  | .within key e => s!"{key}: {e.message}"

/-- The value of the variable that a scalar becomes. Truth is `1` and falsehood is `0`. -/
def Toml.Value.scalarText? : Toml.Value → Option String
  | .string s => some s
  | .integer n => some (toString n)
  | .float x => some x.text
  | .boolean b => some (if b then "1" else "0")
  | .datetime d => some d.text
  | .array _ | .table _ => none

namespace Bindings

mutual

/-- Adds the entries of a table, in order, up to the first one that has no place. -/
def addTable (b : Bindings) : Toml.Table → Except ShapeFault Bindings
  | [] => .ok b
  | (key, .array items) :: rest =>
    match loopOf key items with
    | .ok children => addTable (b.setLoop key children) rest
    | .error e => .error e
  | (key, .table _) :: _ => .error (.tableValue key)
  | (key, v) :: rest => addTable (b.set key (.ofString (v.scalarText?.getD ""))) rest

/-- The children of a loop: one for each table of an array. -/
def loopOf (key : String) : List Toml.Value → Except ShapeFault (List Bindings)
  | [] => .ok []
  | .table t :: rest =>
    match addTable ∅ t with
    | .ok child => (loopOf key rest).map (child :: ·)
    | .error e => .error (.within key e)
  | v :: _ => .error (.looseItem key v.typeName)

end

/-- The binding set of a table. -/
def ofTable (t : Toml.Table) : Except ShapeFault Bindings := addTable ∅ t

end Bindings

/-- Why data cannot be loaded. -/
inductive DataFault where
  | unreadable (path : Path) (why : FileFault)
  | notToml (path : Path) (why : Toml.Fault)
  | shape (path : Path) (why : ShapeFault)
  | noAssignment (text : String)
  deriving DecidableEq, Repr

/-- What is wrong, in words. -/
def DataFault.message : DataFault → String
  | .unreadable path why => s!"cannot read '{path.text}': {why.message}"
  | .notToml path why => s!"TOML parse error in '{path.text}': {why.message}"
  | .shape path why => s!"{path.text}: {why.message}"
  | .noAssignment text => s!"invalid variable '{text}': expected NAME=VALUE"

/-- The name and the value of an assignment: what stands before and behind its first `=`. -/
def assignment? (text : String) : Except DataFault (String × String) :=
  match text.toList.span (· ≠ '=') with
  | (c :: name, '=' :: value) => .ok (String.ofList (c :: name), String.ofList value)
  | _ => .error (.noAssignment text)

namespace Bindings

/-- Adds the table of a data file. -/
def addFile (files : Files) (b : Bindings) (path : Path) : Except DataFault Bindings := do
  let text ← (files.readText path).mapError (.unreadable path)
  let table ← (Toml.Document.table text).mapError (.notToml path)
  (b.addTable table).mapError (.shape path)

/-- Sets the variable that a text assigns. -/
def addAssignment (b : Bindings) (text : String) : Except DataFault Bindings :=
  (assignment? text).map fun (name, value) => b.set name (.ofString value)

/-- The binding set of data files and the assignments after them. -/
def load (files : Files) (paths : List Path) (assignments : List String) :
    Except DataFault Bindings := do
  let b ← paths.foldlM (addFile files) ∅
  assignments.foldlM addAssignment b

end Bindings

end Stencil
