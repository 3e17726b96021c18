import Stencil.Log.Pattern.Expression

/-!
# Modes

An expression is about characters of Unicode or about octets, and minds the case of letters or not,
as the flags before say. There are no tables of Unicode, so that in Unicode neither case can be left
aside nor can kinds of characters and the edges of words be told. Among octets nothing may fit an
octet that is only part of a character, and so nothing that is said of all but some octets is of
use.
-/

namespace Stencil.Log.Pattern

/-- What flags turn on or off. -/
structure Mode where
  ignoresCase : Bool
  unicode : Bool
  deriving DecidableEq, Repr

namespace Mode

/-- The mode before all flags. -/
def standard : Mode := ⟨false, true⟩

/-- The mode behind flags. -/
def set (m : Mode) (f : Flags) : Mode :=
  ⟨f.ignoresCase.getD m.ignoresCase, f.unicode.getD m.unicode⟩

/-- Whether a character can be told from its other case, if it has to be. -/
def allowsLetter (m : Mode) (l : Letter) : Bool :=
  if m.unicode then !m.ignoresCase else !l.octet || l.char.toNat < 128

/-- Whether a character may be in a set. -/
def allowsMember (m : Mode) (l : Letter) : Bool :=
  if m.unicode then !m.ignoresCase else l.char.toNat < 128

/-- Whether a kind of characters, or all others, can be told. -/
def allowsKind (m : Mode) (negated : Bool) : Bool := !m.unicode && !negated

mutual

/-- Whether a set can be used. -/
def allowsSet (m : Mode) : CharSet → Bool
  | .letter l => m.allowsMember l
  | .range first last => m.allowsMember first && m.allowsMember last
  | .kind negated => m.allowsKind negated
  | .named negated => if m.unicode then !m.ignoresCase else !negated
  | .nested negated s => (m.unicode || !negated) && m.allowsSet s
  | .union parts => m.allowsSets parts
  | .combined left right => m.allowsSet left && m.allowsSet right

/-- Whether sets can be used. -/
def allowsSets (m : Mode) : List CharSet → Bool
  | [] => true
  | s :: rest => m.allowsSet s && m.allowsSets rest

end

mutual

/-- The mode behind an expression. There is none where the expression cannot be used. -/
def behind? (m : Mode) : Expression → Option Mode
  | .letter l => if m.allowsLetter l then some m else none
  | .any => if m.unicode then some m else none
  | .anchor => some m
  | .wordEdge => if m.unicode then none else some m
  | .kind negated => if m.allowsKind negated then some m else none
  | .charSet negated s => if (m.unicode || !negated) && m.allowsSet s then some m else none
  | .flags f => some (m.set f)
  | .repeated e => m.behind? e
  | .group f e => ((m.set f).behind? e).map fun _ => m
  | .sequence parts => m.behindAll? parts
  | .choice branches => m.behindAll? branches

/-- The mode behind expressions, each in the mode behind the one before. -/
def behindAll? (m : Mode) : List Expression → Option Mode
  | [] => some m
  | e :: rest =>
    match m.behind? e with
    | some n => n.behindAll? rest
    | none => none

end

end Mode

end Stencil.Log.Pattern
