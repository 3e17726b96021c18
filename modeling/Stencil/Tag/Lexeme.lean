import Stencil.Tag
import Stencil.Text.Utf8

/-!
# How tags are written

A tag is `<TMPL_ELSE>`, `<TMPL_IF name="x">` (and so for the other kinds) or `</TMPL_IF>`, with
letters of any case outside the quotes and any number of spaces before the `>`. A `Lexeme` is one
such word, taken apart; `Lexeme.read?` reads the one at the head of the octets.
-/

namespace Stencil

/-- One written tag. `tail` counts the spaces before its `>`. -/
inductive Lexeme where
  /-- `<TMPL_ELSE>` -/
  | divider (tail : Nat)
  /-- `<TMPL_IF name="value">`, with `gap + 1` spaces before the attribute. -/
  | opening (kind : Kind) (gap : Nat) (value : Bytes) (tail : Nat)
  /-- `</TMPL_IF>` -/
  | closing (kind : Kind) (tail : Nat)
  deriving DecidableEq, Repr

namespace Lexeme

/-- The kinds whose opening tags have a name. -/
def namedKinds : List Kind := [.ifBlock, .includes, .incl, .loopBlock, .unlessBlock, .var]

/-- The kinds that have closing tags. A closing tag of a variable reads as a tag, but none is ever
in its place. -/
def closedKinds : List Kind := [.ifBlock, .loopBlock, .unlessBlock, .var]

/-- Reads one of the kinds' words as a whole word: a space or `>`, which stays, follows it. -/
def kind? (kinds : List Kind) (bs : Bytes) : Option (Kind × Bytes) :=
  kinds.findSome? fun k =>
    match Bytes.dropWord? (Bytes.ofString k.word) bs with
    | some (32 :: rest) => some (k, 32 :: rest)
    | some (62 :: rest) => some (k, 62 :: rest)
    | _ => none

/-- Reads the spaces and the `>` that end a tag. -/
def tail? (bs : Bytes) : Option (Nat × Bytes) :=
  match Bytes.skip 32 bs with
  | (n, 62 :: rest) => some (n, rest)
  | _ => none

/-- Reads a value and the quote behind it. A value has one octet or more, none of them a quote. -/
def value? (bs : Bytes) : Option (Bytes × Bytes) :=
  match bs.span (· ≠ 34) with
  | (b :: value, _ :: rest) => some (b :: value, rest)
  | _ => none

/-- Reads the spaces, one or more, and the name attribute of an opening tag. -/
def name? (bs : Bytes) : Option (Nat × Bytes × Bytes) :=
  match Bytes.skip 32 bs with
  | (gap + 1, bs) => do
    let bs ← Bytes.dropWord? (Bytes.ofString "name=\"") bs
    let (value, bs) ← value? bs
    return (gap, value, bs)
  | (0, _) => none

/-- Reads what follows `</TMPL_`. -/
def closing? (bs : Bytes) : Option (Lexeme × Bytes) := do
  let (kind, bs) ← kind? closedKinds bs
  let (tail, bs) ← tail? bs
  return (.closing kind tail, bs)

/-- Reads what follows `<TMPL_`. -/
def opening? (bs : Bytes) : Option (Lexeme × Bytes) := do
  let (kind, bs) ← kind? (.elseMark :: namedKinds) bs
  match kind with
  | .elseMark => do
    let (tail, bs) ← tail? bs
    return (.divider tail, bs)
  | kind => do
    let (gap, value, bs) ← name? bs
    let (tail, bs) ← tail? bs
    return (.opening kind gap value tail, bs)

/-- The word at the head of the octets, and what follows it. -/
def read? : Bytes → Option (Lexeme × Bytes)
  | 60 :: 47 :: bs => Bytes.dropWord? (Bytes.ofString "TMPL_") bs >>= closing?
  | 60 :: bs => Bytes.dropWord? (Bytes.ofString "TMPL_") bs >>= opening?
  | _ => none

/-- The kind of tag that the word writes. -/
def kind : Lexeme → Kind
  | .divider _ => .elseMark
  | .opening kind .. => kind
  | .closing kind _ => kind

/-- The number of octets of the word. -/
def width : Lexeme → Nat
  | .divider tail => 1 + Kind.elseMark.keyword.length + tail + 1
  | .opening kind gap value tail =>
    1 + kind.keyword.length + (gap + 1) + 6 + value.length + 1 + tail + 1
  | .closing kind tail => 2 + kind.keyword.length + tail + 1

/-- The tag that the word writes at an offset. Its name is the lossily decoded value. -/
def tag (start : Nat) (x : Lexeme) : Tag where
  kind := x.kind
  span := ⟨start, start + x.width⟩
  name :=
    match x with
    | .opening _ _ value _ => some (Utf8.lossy value)
    | _ => none
  closes :=
    match x with
    | .closing .. => true
    | _ => false

end Lexeme

end Stencil
