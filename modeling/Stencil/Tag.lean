import Stencil.Span

/-!
# Tags

The seven kinds of tags, and a tag as it stands in a source: its kind, its span, the value of its
name attribute and whether it closes a block. `Tag.text` is its canonical spelling.
-/

namespace Stencil

/-- The kinds of tags. -/
inductive Kind where
  /-- Divides a conditional block into its two branches. -/
  | elseMark
  /-- A block that is rendered when its condition holds. -/
  | ifBlock
  /-- Short for `includes`. -/
  | incl
  /-- The rendering of another file. -/
  | includes
  /-- A block that is rendered once per child scope. -/
  | loopBlock
  /-- A block that is rendered when its condition fails. -/
  | unlessBlock
  /-- The value of a variable. -/
  | var
  deriving DecidableEq, Repr, Inhabited

namespace Kind

/-- The word that tells the kind in a tag, after the `TMPL_` that all tags share. -/
def word : Kind → String
  | .elseMark => "ELSE"
  | .ifBlock => "IF"
  | .incl => "INCL"
  | .includes => "INCLUDE"
  | .loopBlock => "LOOP"
  | .unlessBlock => "UNLESS"
  | .var => "VAR"

/-- The keyword of the kind. -/
def keyword (k : Kind) : String := "TMPL_" ++ k.word

/-- Blocks extend from an opening tag to a closing one. -/
def isBlock : Kind → Bool
  | .ifBlock | .unlessBlock | .loopBlock => true
  | _ => false

/-- The blocks that an else divides into two branches. -/
def takesElse : Kind → Bool
  | .ifBlock | .unlessBlock => true
  | _ => false

end Kind

/-- A tag in a source. -/
structure Tag where
  kind : Kind
  /-- The whole tag, from its `<` to its `>`. -/
  span : Span
  /-- The value of the name attribute. -/
  name : Option String
  /-- Whether it is a closing tag. -/
  closes : Bool
  deriving DecidableEq, Repr, Inhabited

namespace Tag

/-- The name, empty where the tag has none. -/
def nameOrEmpty (t : Tag) : String := t.name.getD ""

/-- The canonical spelling. -/
def text (t : Tag) : String :=
  if t.closes then "</" ++ t.kind.keyword ++ ">"
  else
    match t.name with
    | some name => "<" ++ t.kind.keyword ++ " name=\"" ++ name ++ "\">"
    | none => "<" ++ t.kind.keyword ++ ">"

/-- Whether the tag opens a block. -/
def opensBlock (t : Tag) : Bool := !t.closes && t.kind.isBlock

end Tag

end Stencil
