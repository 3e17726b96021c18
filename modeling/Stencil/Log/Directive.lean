import Stencil.Log
import Stencil.Log.Pattern
import Stencil.Text.Blank

/-!
# Directives

A directive sets the level for part of the log: `level`, `channel`, `channel=level`,
`channel[{field}]=level` and the like. It is about the channels that begin with a text, or all of
them, and about the lines that have a field, or all of them. It may also be limited to a stretch of
time, `[stretch]`, or to values that fit a pattern, `[{field=pattern}]`. No stretch ever comes and
values are looked at in stretches alone, so that such a directive is about no line at all.
-/

namespace Stencil.Log

/-- What is shown of part of the log. -/
structure Directive where
  /-- How the channels begin, none for all of them. -/
  channel : Option String
  /-- The field that lines have, none for all lines. -/
  field : Option String
  rank : Nat
  deriving DecidableEq, Repr

namespace Directive

/-! ### Reading -/

/-- The text between two offsets. -/
def cut (s : String) (start stop : Nat) : String :=
  Utf8.lossy (Bytes.slice (Bytes.ofString s) start stop)

/-- The text behind an offset. -/
def cutFrom (s : String) (start : Nat) : String := cut s start s.utf8ByteSize

/-- The number of octets of characters. -/
def size (cs : List Char) : Nat := cs.foldr (fun c n => c.utf8Size + n) 0

/-- Whether a directive may begin with the character. -/
def begins (c : Char) : Bool := ['-', ':', '_', '['].contains c || Text.isAlphanumeric c

/-- The rank that the text behind an offset asks for: all is shown where there is no text. -/
def rankFrom? (s : String) (start : Nat) : Option Nat :=
  let level := cutFrom s start
  if level.isEmpty then some Level.trace.rank else Level.rank? level

/-- Reads what follows a channel and its brackets, from an offset on: nothing, or the level. -/
def rest? (s : String) (start : Nat) : List Char → Option Nat
  | [] => some Level.trace.rank
  | '=' :: _ => rankFrom? s (start + 1)
  | _ => none

/-- Reads a field, perhaps with a pattern for its value. There is no field where there is a
pattern. -/
def field? (text : String) : Option (Option String) :=
  match pieces '=' text.toList with
  | [name] => some (some (String.ofList name))
  | _ :: value :: _ => if Pattern.isPattern (String.ofList value) then some none else none
  | [] => none

/-- Reads a directive of the channel from its opening bracket on, behind which is an offset. -/
def limited? (s : String) (channel : Option String) (start : Nat) (cs : List Char) :
    Option (Option Directive) :=
  match cs.span fun c => c != ']' && c != '\x7b' with
  | (stretch, ']' :: rest) => (rest? s (start + size stretch + 1) rest).map fun _ => none
  | (stretch, _ :: rest) =>
    let start := start + size stretch + 1
    match rest.span (· != '\x7d') with
    | ([], _) => none
    | (name, '\x7d' :: ']' :: rest) => do
      let stop := start + size name
      let field ← field? (cut s start stop)
      let rank ← rest? s (stop + 2) rest
      match stretch, field with
      | [], some field => return some ⟨channel, some field, rank⟩
      | _, _ => return none
    | _ => none
  | (_, []) => none

/-- Reads a directive; there is none where a stretch or a pattern limits it. Its parts are told
apart without the white space around it, and cut out at the offsets that they have there. -/
def ofText? (s : String) : Option (Option Directive) :=
  let cs := Text.trimBlank s.toList
  match cs.head?.map begins, cs.span fun c => c != '=' && c != '[' with
  | some true, (_, []) =>
    match Level.rank? s with
    | some rank => some (some ⟨none, none, rank⟩)
    | none => some (some ⟨some s, none, Level.trace.rank⟩)
  | some true, (head, '=' :: _) =>
    (rankFrom? s (size head + 1)).map fun rank => some ⟨some (cut s 0 (size head)), none, rank⟩
  | some true, (head, _ :: rest) =>
    limited? s (if head = [] then none else some (cut s 0 (size head))) (size head + 1) rest
  | _, _ => none

/-! ### What a directive is about -/

/-- Whether a directive is about a step. -/
def fits (d : Directive) (e : Event) : Bool :=
  d.channel.all (fun start => start.toList.isPrefixOf e.channel.toList)
    && d.field.all e.fields.contains

/-- The number of octets that a directive knows of a channel, and one more. -/
def reach (d : Directive) : Nat := d.channel.elim 0 (·.utf8ByteSize + 1)

/-- Whether a directive is at least as close as another one about the same step: by the length of
the channel, then by having a field, then by the field's name. -/
def asClose (d e : Directive) : Bool :=
  if d.reach ≠ e.reach then e.reach < d.reach
  else
    match d.field, e.field with
    | _, none => true
    | none, some _ => false
    | some f, some g => g ≤ f

end Directive

end Stencil.Log
