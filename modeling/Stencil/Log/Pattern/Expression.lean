/-!
# Regular expressions

What a regular expression is made of, as far as it tells whether the expression can be used: white
space and comments are gone, and of anchors, word edges, kinds and named classes only their sort is
left.
-/

namespace Stencil.Log.Pattern

/-- A character of an expression. -/
structure Letter where
  char : Char
  /-- Whether it is written as an octet, with two hexadecimal digits. -/
  octet : Bool
  deriving DecidableEq, Repr

/-- What flags turn on or off, none for what they leave as it was. -/
structure Flags where
  ignoresCase : Option Bool
  unicode : Option Bool
  /-- Whether white space and comments stand for nothing. -/
  spaced : Option Bool
  deriving DecidableEq, Repr

/-- A set of characters between brackets. -/
inductive CharSet where
  | letter (l : Letter)
  | range (first last : Letter)
  /-- The characters of a kind that has a letter, such as digits, or all but them. -/
  | kind (negated : Bool)
  /-- The characters of a class that has a name, or all but them. -/
  | named (negated : Bool)
  /-- A set between brackets of its own. -/
  | nested (negated : Bool) (s : CharSet)
  /-- What stands side by side. -/
  | union (parts : List CharSet)
  /-- Two sets with an operator between them. -/
  | combined (left right : CharSet)

/-- A regular expression. -/
inductive Expression where
  | letter (l : Letter)
  /-- Any character. -/
  | any
  /-- A place in the text or in its line. -/
  | anchor
  /-- A place at which a word begins or ends, or neither. -/
  | wordEdge
  /-- A character of a kind that has a letter, or of no such kind. -/
  | kind (negated : Bool)
  /-- A character of a set, or of none such. -/
  | charSet (negated : Bool) (s : CharSet)
  /-- Flags for what follows. -/
  | flags (f : Flags)
  | repeated (e : Expression)
  /-- A group, with flags for what is in it. -/
  | group (f : Flags) (e : Expression)
  | sequence (parts : List Expression)
  | choice (branches : List Expression)

/-- Flags that leave everything as it was. -/
def Flags.unchanged : Flags := ⟨none, none, none⟩

/-- A character that stands for itself. -/
def Letter.plain (c : Char) : Letter := ⟨c, false⟩

/-! ### Levels -/

mutual

/-- Whether a set has at most so many levels above its characters. A part that is alone in its set
adds none. -/
def CharSet.within : (limit : Nat) → CharSet → Bool
  | limit + 1, .nested _ s => s.within limit
  | limit, .union [s] => s.within limit
  | limit + 1, .union parts => CharSet.allWithin limit parts
  | limit + 1, .combined left right => left.within limit && right.within limit
  | 0, .union [] => true
  | 0, .nested _ _ | 0, .union _ | 0, .combined _ _ => false
  | _, .letter _ | _, .range _ _ | _, .kind _ | _, .named _ => true

/-- Whether all sets have at most so many levels. -/
def CharSet.allWithin : (limit : Nat) → List CharSet → Bool
  | _, [] => true
  | limit, s :: rest => s.within limit && CharSet.allWithin limit rest

end

mutual

/-- Whether an expression has at most so many levels above its characters. A part that is alone in
its sequence adds none. -/
def Expression.within : (limit : Nat) → Expression → Bool
  | limit + 1, .charSet _ s => s.within limit
  | limit + 1, .repeated e => e.within limit
  | limit + 1, .group _ e => e.within limit
  | limit, .sequence [e] => e.within limit
  | limit + 1, .sequence parts => Expression.allWithin limit parts
  | limit + 1, .choice branches => Expression.allWithin limit branches
  | 0, .sequence [] => true
  | 0, .charSet _ _ | 0, .repeated _ | 0, .group _ _ | 0, .sequence _ | 0, .choice _ => false
  | _, .letter _ | _, .any | _, .anchor | _, .wordEdge | _, .kind _ | _, .flags _ => true

/-- Whether all expressions have at most so many levels. -/
def Expression.allWithin : (limit : Nat) → List Expression → Bool
  | _, [] => true
  | limit, e :: rest => e.within limit && Expression.allWithin limit rest

end

/-- The greatest number of levels that an expression may have. -/
def levelLimit : Nat := 250

end Stencil.Log.Pattern
