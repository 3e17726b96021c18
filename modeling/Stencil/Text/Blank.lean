import Stencil.Pieces

/-!
# White space and lines

The characters that count as white space in any script, a text without those at its ends, and a
text's lines.
-/

namespace Stencil.Text

/-- Whether a character is white space. -/
def isBlank (c : Char) : Bool :=
  let n := c.toNat
  9 ≤ n && n ≤ 13 || n == 0x20 || n == 0x85 || n == 0xA0 || n == 0x1680
    || 0x2000 ≤ n && n ≤ 0x200A || n == 0x2028 || n == 0x2029 || n == 0x202F || n == 0x205F
    || n == 0x3000

/-- The characters without the white space at both ends. -/
def trimBlank (cs : List Char) : List Char :=
  ((cs.dropWhile isBlank).reverse.dropWhile isBlank).reverse

/-- The text without the white space at both ends. -/
def trim (s : String) : String := String.ofList (trimBlank s.toList)

/-- The text without the characters of a class at both ends. -/
def trimOf (p : Char → Bool) (s : String) : String :=
  String.ofList ((s.toList.dropWhile p).reverse.dropWhile p).reverse

/-- A line without the carriage return at its end. -/
def withoutReturn (line : List Char) : List Char := dropSuffix ['\r'] line

/-- The lines that pieces between line feeds make up: the last piece, which none ends, is a line
unless it is empty. -/
def linesOfPieces : List (List Char) → List (List Char)
  | [] => []
  | [last] => if last.isEmpty then [] else [last]
  | piece :: rest => withoutReturn piece :: linesOfPieces rest

/-- The lines of a text, without the line feeds and carriage returns that end them. -/
def lines (s : String) : List String := (linesOfPieces (pieces '\n' s.toList)).map String.ofList

end Stencil.Text
