import Stencil.Log.Pattern.Escape

/-!
# Sets between brackets

A set is written between brackets, with characters, ranges, kinds, named classes and sets of its own
side by side, and operators between those. What is open is kept in a list, the innermost set
first.
-/

namespace Stencil.Log.Pattern

/-- A set up to where it has been read. -/
structure OpenSet where
  negated : Bool
  /-- Whether nothing but dashes stands behind the bracket that opens it. -/
  fresh : Bool
  /-- What stands before the last operator. -/
  left : Option CharSet
  /-- What stands behind it, the last part first. -/
  parts : List CharSet

namespace OpenSet

/-- The set with one more part. -/
def add (o : OpenSet) (part : CharSet) : OpenSet :=
  { o with fresh := false, parts := part :: o.parts }

/-- What the brackets hold. -/
def content (o : OpenSet) : CharSet :=
  let right := .union o.parts.reverse
  o.left.elim right (.combined · right)

/-- The set with an operator behind it. -/
def operator (o : OpenSet) : OpenSet := ⟨o.negated, false, some o.content, []⟩

/-- A set behind the bracket that opens it, and what follows there. -/
def opened (spaced : Bool) (cs : List Char) : OpenSet × List Char :=
  match skip spaced cs with
  | '^' :: cs => (⟨true, true, none, []⟩, cs)
  | cs => (⟨false, true, none, []⟩, cs)

end OpenSet

/-- The classes that have names. -/
def classNames : List String :=
  ["alnum", "alpha", "ascii", "blank", "cntrl", "digit", "graph", "lower", "print", "punct",
    "space", "upper", "word", "xdigit"]

/-- Reads a named class, behind the bracket in front of it. -/
def named? : List Char → Option (CharSet × List Char)
  | ':' :: cs =>
    let negated := cs.head? == some '^'
    match (if negated then cs.drop 1 else cs).span (· ≠ ':') with
    | (name, ':' :: ']' :: rest) =>
      if classNames.contains (String.ofList name) then some (.named negated, rest) else none
    | _ => none
  | _ => none

/-- Reads a character or a kind of characters. -/
def setItem? (spaced : Bool) : List Char → Option (CharSet × List Char)
  | [] => none
  | '\\' :: cs =>
    match escape? spaced cs with
    | some (.letter l, rest) => some (.letter l, rest)
    | some (.kind negated, rest) => some (.kind negated, rest)
    | _ => none
  | c :: cs => some (.letter (.plain c), cs)

/-- The range from one character to another one that is not before it. -/
def range? : (first last : CharSet) → Option CharSet
  | .letter a, .letter b => if a.char ≤ b.char then some (.range a b) else none
  | _, _ => none

/-- Reads an item or a range. -/
def setPart? (spaced : Bool) (cs : List Char) : Option (CharSet × List Char) := do
  let (first, rest) ← setItem? spaced cs
  match skip spaced rest with
  | '-' :: more =>
    if [some ']', some '-'].contains (afterDash spaced more) then return (first, '-' :: more)
    let (last, rest) ← setItem? spaced (skip spaced more)
    return (← range? first last, rest)
  | rest => return (first, rest)

/-- Reads a set up to its last bracket, in at most so many steps. The sets around the one that is
read are in `outer`, the closest first. -/
def charSet? (spaced : Bool) :
    (steps : Nat) → (outer : List OpenSet) → OpenSet → List Char → Option (Expression × List Char)
  | 0, _, _, _ => none
  | steps + 1, outer, o, cs =>
    match skip spaced cs with
    | [] => none
    | '[' :: cs =>
      match named? cs with
      | some (part, rest) => charSet? spaced steps outer (o.add part) rest
      | none =>
        let (inner, rest) := OpenSet.opened spaced cs
        charSet? spaced steps (o :: outer) inner rest
    | ']' :: cs =>
      if o.fresh && o.parts.isEmpty then
        charSet? spaced steps outer (o.add (.letter (.plain ']'))) cs
      else
        match outer with
        | [] => some (.charSet o.negated o.content, cs)
        | around :: outer =>
          charSet? spaced steps outer (around.add (.nested o.negated o.content)) cs
    | '&' :: '&' :: cs => charSet? spaced steps outer o.operator cs
    | '~' :: '~' :: cs => charSet? spaced steps outer o.operator cs
    | c :: cs =>
      if c = '-' ∧ o.fresh then
        charSet? spaced steps outer { o with parts := .letter (.plain '-') :: o.parts } cs
      else if c = '-' ∧ cs.head? = some '-' then
        charSet? spaced steps outer o.operator (cs.drop 1)
      else
        match setPart? spaced (c :: cs) with
        | some (part, rest) => charSet? spaced steps outer (o.add part) rest
        | none => none

end Stencil.Log.Pattern
