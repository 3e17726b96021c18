import Stencil.Tag.Lexeme

/-!
# The tags of a source

Tags are found from left to right: the octets of a tag are skipped, and where no tag begins an
octet is text.
-/

namespace Stencil.Tag

/-- The tags of the octets from offset `pos` on, of which the first `covered` belong to a tag
already found. -/
def scanFrom : (pos covered : Nat) → Bytes → List Tag
  | _, _, [] => []
  | pos, covered + 1, _ :: bs => scanFrom (pos + 1) covered bs
  | pos, 0, b :: bs =>
    match Lexeme.read? (b :: bs) with
    | some (x, _) => x.tag pos :: scanFrom (pos + 1) (x.width - 1) bs
    | none => scanFrom (pos + 1) 0 bs

/-- The tags inside a stretch of the source, in order. A stretch that reaches over the end of the
source ends there, and one that begins behind its own end is empty. -/
def scan (source : Bytes) (range : Span) : List Tag :=
  let stop := min range.stop source.length
  let start := min range.start stop
  scanFrom start 0 (source.slice start stop)

end Stencil.Tag
