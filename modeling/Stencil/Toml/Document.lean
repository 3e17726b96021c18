import Stencil.Toml.Settled

/-!
# Documents

A document is a list of lines: entries, and headers that open a table for the entries below them.
Its tables are built up header by header. How a table came about decides what may still be added to
it: a header's table is closed to dotted names, a table that only a longer header has implied may
get a header of its own, and a value is never added to.
-/

namespace Stencil.Toml

/-- How a table came about. -/
inductive Origin where
  /-- By a header of its own. -/
  | header
  /-- By a longer header. -/
  | implied
  /-- By a dotted name. -/
  | dotted
  deriving DecidableEq, Repr

/-- What a name stands for while a document is read. -/
inductive Node where
  | value (v : Value)
  | table (origin : Origin) (entries : List (String × Node))
  /-- The tables of an array, each opened by a header. -/
  | tables (items : List (List (String × Node)))

/-- The entries of a table, in the order of the document. -/
abbrev Entries := List (String × Node)

/-- A dotted name: the tables it goes through, and its last part. -/
abbrev Name := List String × String

namespace Entries

/-- Changes the last table of an array. -/
def changeLast (f : Entries → Option Entries) : List Entries → Option (List Entries)
  | [] => none
  | [es] => (f es).map ([·])
  | es :: rest => (changeLast f rest).map (es :: ·)

/-- Gives a dotted name a value. The name may pass through tables that no header has opened; the
table that it ends in has to come from dotted names, and must not have the name yet. -/
def assign (v : Node) (last : String) : List String → Entries → Option Entries
  | [], es =>
    match Named.get? last es with
    | some _ => none
    | none => some (Named.put last v es)
  | name :: path, es =>
    match Named.get? name es with
    | none => (assign v last path []).map fun sub => Named.put name (.table .dotted sub) es
    | some (.table origin sub) =>
      if origin = .header ∨ path = [] ∧ origin ≠ .dotted then none
      else (assign v last path sub).map fun sub => Named.put name (.table origin sub) es
    | some (.tables items) =>
      if path = [] then none
      else (changeLast (assign v last path) items).map fun items =>
        Named.put name (.tables items) es
    | some (.value _) => none

/-- Changes what a header's name stands for. Of an array of tables the last one is meant. A table
that was implied goes behind the names that are there by then. -/
def change (f : Option Node → Option Node) (last : String) : List String → Entries → Option Entries
  | [], es =>
    match Named.get? last es with
    | some (.table origin sub) =>
      (f (some (.table origin sub))).map fun node => Named.put last node (Named.erase last es)
    | found => (f found).map fun node => Named.put last node es
  | name :: path, es =>
    match Named.get? name es with
    | none => (change f last path []).map fun sub => Named.put name (.table .implied sub) es
    | some (.table origin sub) =>
      (change f last path sub).map fun sub => Named.put name (.table origin sub) es
    | some (.tables items) =>
      (changeLast (change f last path) items).map fun items => Named.put name (.tables items) es
    | some (.value _) => none

/-- Gives several dotted names their values, in order. -/
def assignAll : List (Name × Node) → Entries → Option Entries
  | [], es => some es
  | ((path, last), v) :: rest, es => (assign v last path es).bind (assignAll rest)

end Entries

mutual

/-- The value of a node. -/
def Node.toValue : Node → Value
  | .value v => v
  | .table _ es => .table (Node.entriesToValues es)
  | .tables items => .array (Node.tablesToValues items)

/-- The values of a table's entries. -/
def Node.entriesToValues : List (String × Node) → List (String × Value)
  | [] => []
  | (n, node) :: rest => (n, node.toValue) :: Node.entriesToValues rest

/-- The values of an array's tables. -/
def Node.tablesToValues : List (List (String × Node)) → List Value
  | [] => []
  | es :: rest => .table (Node.entriesToValues es) :: Node.tablesToValues rest

end

namespace Reader

/-- Characters of a name that needs no quotes. -/
def isBare (c : Char) : Bool :=
  'a' ≤ c && c ≤ 'z' || 'A' ≤ c && c ≤ 'Z' || c.isDigit || c == '-' || c == '_'

/-- A name without quotes. -/
def bareName : Reader String := do
  let first ← char isBare
  return String.ofList (first :: (← run isBare))

/-- One part of a dotted name. -/
def namePart : Reader String := do
  blanks
  let part ← if ← sees ['"'] then basicString
    else if ← sees ['\''] then literalString
    else bareName
  blanks
  return part

/-- The depth that names and values do not reach. -/
def depthLimit : Nat := 80

/-- A dotted name. -/
def name : Reader Name := do
  let parts ← separated namePart '.'
  match parts.getLast? with
  | some last => if parts.length < depthLimit then return (parts.dropLast, last) else stop
  | none => stop

/-- A comment, up to the end of its line. -/
def comment : Reader Unit := do
  word ['#']
  discard (run isPlain)

/-- The rest of a line: blank space, a comment if there is one, and the end. -/
def lineEnd : Reader Unit := do
  blanks
  if ← sees ['#'] then comment
  match ← peek? with
  | none => return
  | some _ => newline

/-- Blank space, line ends and comments between the items of an array. -/
def gaps : Reader Unit :=
  discard <| gather do
    match ← peek? with
    | some '#' => do
      comment
      some <$> newline
    | some '\n' | some '\r' => some <$> newline
    | some c => if isBlank c then some <$> blanks else return none
    | none => return none

/-- The items of an array, after its opening bracket. -/
def items (value : Reader Value) : Reader (List Value) := do
  let vs ← gather do
    gaps
    if ← sees [']'] then return none
    else do
      let v ← value
      gaps
      if ← sees [','] then word [',']
      else if !(← sees [']']) then stop
      return some v
  word [']']
  return vs

/-- An entry, up to its value's end. -/
def entry (value : Reader Value) : Reader (Name × Node) := do
  let n ← name
  word ['=']
  blanks
  let v ← value
  return (n, .value v)

/-- The table that braces enclose, after the opening one. -/
def inlineTable (value : Reader Value) : Reader Value := do
  blanks
  let es ←
    if ← sees ['\x7d'] then pure []
    else separated (entry value <* blanks) ','
  word ['\x7d']
  match Entries.assignAll es [] with
  | some es => return (Node.table .header es).toValue
  | none => stop

/-- A value, with so many levels of arrays and tables left for it. -/
def value : (levels : Nat) → Reader Value
  | 0 => scalar
  | levels + 1 => do
    match ← peek? with
    | some '[' => do
      word ['[']
      .array <$> items (value levels)
    | some '\x7b' => do
      word ['\x7b']
      inlineTable (value levels)
    | _ => scalar

/-- A line of a document. -/
inductive Line where
  | entry (name : Name) (v : Node)
  | tableHeader (name : Name)
  | arrayHeader (name : Name)
  | blank

/-- The next line, if there is one. -/
def line? : Reader (Option Line) := do
  blanks
  match ← peek? with
  | none => return none
  | some '#' | some '\n' | some '\r' => do
    lineEnd
    return some .blank
  | some '[' => do
    word ['[']
    if ← sees ['['] then
      word ['[']
      let n ← name
      word [']', ']']
      lineEnd
      return some (.arrayHeader n)
    else
      let n ← name
      word [']']
      lineEnd
      return some (.tableHeader n)
  | some _ => do
    let (n, v) ← entry (value (depthLimit - 1))
    lineEnd
    return some (.entry n v)

end Reader

/-- The header that opens a section of a document. -/
inductive Header where
  | root
  | table (name : Name)
  | array (name : Name)

/-- A header and the entries below it. -/
structure Section where
  header : Header
  entries : List (Name × Node)

/-- The sections that lines make up, the first of which is `header`'s. -/
def Section.ofLines (header : Header) (entries : List (Name × Node)) :
    List Reader.Line → List Section
  | [] => [⟨header, entries.reverse⟩]
  | .blank :: rest => ofLines header entries rest
  | .entry n v :: rest => ofLines header ((n, v) :: entries) rest
  | .tableHeader n :: rest => ⟨header, entries.reverse⟩ :: ofLines (.table n) [] rest
  | .arrayHeader n :: rest => ⟨header, entries.reverse⟩ :: ofLines (.array n) [] rest

/-- Adds a section to a document. A header may open a table that is new or implied, and an array
that is new or made by such headers. -/
def Section.addTo (es : Entries) (s : Section) : Option Entries :=
  match s.header with
  | .root => Entries.assignAll s.entries es
  | .table (path, last) =>
    es.change (fun
      | none => (Entries.assignAll s.entries []).map (.table .header)
      | some (.table .implied sub) => (Entries.assignAll s.entries sub).map (.table .header)
      | some _ => none) last path
  | .array (path, last) =>
    es.change (fun
      | none => (Entries.assignAll s.entries []).map fun t => .tables [t]
      | some (.tables items) =>
        (Entries.assignAll s.entries []).map fun t => .tables (items ++ [t])
      | some _ => none) last path

/-- Why a text is no document, or not one of the shape that is asked for. -/
structure Fault where
  line : Nat
  column : Nat
  deriving DecidableEq, Repr

/-- What is wrong, in words. -/
def Fault.message (e : Fault) : String :=
  s!"TOML parse error at line {e.line}, column {e.column}"

/-- The place behind characters. -/
def Fault.behind (cs : List Char) : Fault where
  line := cs.count '\n' + 1
  column := (cs.reverse.takeWhile (· ≠ '\n')).length + 1

/-- The fault of a document as a whole. -/
def Fault.whole : Fault := ⟨1, 1⟩

namespace Document

/-- The lines of a text. -/
def lines (cs : List Char) : Except Fault (List Reader.Line) :=
  match Reader.gather Reader.line? cs with
  | .ok (ls, _) => .ok ls
  | .error left => .error (.behind (cs.take (cs.length - left.length)))

/-- The entries of a text, which may begin with a byte order mark. -/
def entries (text : String) : Except Fault Entries := do
  let cs :=
    match text.toList with
    | '\uFEFF' :: cs => cs
    | cs => cs
  let sections := Section.ofLines .root [] (← lines cs)
  match sections.foldlM Section.addTo [] with
  | some es => return es
  | none => throw .whole

/-- The table that a text writes, as it is written. -/
def written (text : String) : Except Fault Table := (entries text).map Node.entriesToValues

/-- The data that a text writes. -/
def table (text : String) : Except Fault Table := do
  match Table.settled? (← written text) with
  | some t => return t
  | none => throw .whole

end Document

end Stencil.Toml
