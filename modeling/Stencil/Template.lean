import Stencil.Tag.Scan

/-!
# Templates

A template is a stretch of a source with its tags, each opening block tag linked to the tag that
closes it and to the else that divides it. Blocks of different kinds are matched independently of
one another: an opening tag counts the tags of its own kind alone.
-/

namespace Stencil

/-- Where an opening block tag's partners stand in the list of tags. -/
structure Link where
  /-- The index of the closing tag. -/
  closing : Nat
  /-- The index of the else of a conditional block. -/
  divider : Option Nat
  deriving DecidableEq, Repr

/-- Why a block has no link. -/
inductive BlockFault where
  /-- No closing tag of its kind balances the opening tag at `opener`. -/
  | unclosed (kind : Kind) (opener : Span)
  /-- A second else, at `second`, follows the first one in the same block. -/
  | secondElse (kind : Kind) (opener first second : Span)
  deriving DecidableEq, Repr

namespace BlockFault

/-- What is wrong, in words. -/
def message : BlockFault → String
  | .unclosed kind _ => "unable to find closing tag for " ++ kind.keyword
  | .secondElse kind .. => "duplicate TMPL_ELSE in " ++ kind.keyword ++ " block"

/-- The tag that is at fault. -/
def span : BlockFault → Span
  | .unclosed _ opener => opener
  | .secondElse _ _ _ second => second

/-- Further tags that matter, each with what it is. -/
def related : BlockFault → List (Span × String)
  | .unclosed .. => []
  | .secondElse _ opener first _ =>
    [(first, "first TMPL_ELSE is here"), (opener, "block opened here")]

/-- Advice. -/
def notes : BlockFault → List String
  | .unclosed kind _ => ["expected a matching </" ++ kind.keyword ++ ">"]
  | .secondElse .. => []

/-- The fault and its place on one line. -/
def text (e : BlockFault) : String := s!"{e.message} (at byte {e.span.start})"

end BlockFault

namespace Tag

/-- The number of open blocks of the opening tag's kind after the tag `next`. -/
def depthAfter (opener next : Tag) (depth : Nat) : Nat :=
  if next.kind = opener.kind then
    if next.closes then depth - 1 else depth + 1
  else depth

/-- The partners of an opening block tag among the tags behind it. The first of them has the index
`i`; `depth` blocks of its kind are open, and `divider` is the else found so far. -/
def findLink (opener : Tag) : (i depth : Nat) → (divider : Option (Nat × Span)) → List Tag →
    Except BlockFault Link
  | _, _, _, [] => .error (.unclosed opener.kind opener.span)
  | i, depth, divider, next :: rest =>
    let depth := opener.depthAfter next depth
    if depth = 0 then .ok ⟨i, divider.map (·.1)⟩
    else if depth = 1 ∧ next.kind = .elseMark ∧ opener.kind.takesElse then
      match divider with
      | some (_, first) => .error (.secondElse opener.kind opener.span first next.span)
      | none => findLink opener (i + 1) depth (some (i, next.span)) rest
    else findLink opener (i + 1) depth divider rest

/-- What matching finds for each tag, the first of which has the index `i`: nothing for a tag that
opens no block. -/
def linksFrom : (i : Nat) → List Tag → List (Option (Except BlockFault Link))
  | _, [] => []
  | i, tag :: rest =>
    (if tag.opensBlock then some (tag.findLink (i + 1) 1 none rest) else none)
      :: linksFrom (i + 1) rest

/-- What matching finds for each tag of a list. -/
def links (tags : List Tag) : List (Option (Except BlockFault Link)) := linksFrom 0 tags

end Tag

/-- A tag with the link that matching has set. -/
structure LinkedTag extends Tag where
  link : Option Link
  deriving DecidableEq, Repr

/-- The tags with the links of the blocks that are in order. -/
def LinkedTag.ofTags (tags : List Tag) : List LinkedTag :=
  List.zipWith (fun tag found => { tag with link := found.bind (·.toOption) }) tags (Tag.links tags)

/-- The faults of the blocks, in the order of their opening tags. -/
def Tag.blockFaults (tags : List Tag) : List BlockFault :=
  (Tag.links tags).filterMap fun
    | some (.error e) => some e
    | _ => none

/-- A stretch of a source with its matched tags. -/
structure Template where
  /-- The stretch as it was asked for. -/
  range : Span
  tags : List LinkedTag
  deriving DecidableEq, Repr

namespace Template

/-- The template of a list of tags, or all that is wrong with their blocks. -/
def ofTags (range : Span) (tags : List Tag) : Except (List BlockFault) Template :=
  match Tag.blockFaults tags with
  | [] => .ok ⟨range, LinkedTag.ofTags tags⟩
  | e :: es => .error (e :: es)

/-- Reads a stretch of a source. The tags' spans are offsets into the source. -/
def parseRange (source : Bytes) (range : Span) : Except (List BlockFault) Template :=
  ofTags range (Tag.scan source range)

/-- Reads a whole source. -/
def parse (source : Bytes) : Except (List BlockFault) Template :=
  parseRange source ⟨0, source.length⟩

/-- Whether the template is text alone. -/
def isLiteral (t : Template) : Bool := t.tags.isEmpty

end Template

end Stencil
