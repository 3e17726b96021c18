import Stencil.Log.Pattern.Expression
import Stencil.Text.Blank
import Stencil.Text.Digits

/-!
# White space and escapes

What a backslash and the characters behind it write. In a spaced expression white space stands for
nothing, nor does a comment, from a number sign to the end of its line; between the digits of a
character's number as well.
-/

namespace Stencil.Log.Pattern

/-! ### White space -/

/-- The characters behind white space and comments. A comment may be open at the front. -/
def afterSpace : (inComment : Bool) → List Char → List Char
  | _, [] => []
  | true, c :: cs => afterSpace (c != '\n') cs
  | false, c :: cs =>
    if Text.isBlank c then afterSpace false cs
    else if c = '#' then afterSpace true cs
    else c :: cs

/-- The characters to read next. -/
def skip (spaced : Bool) (cs : List Char) : List Char := if spaced then afterSpace false cs else cs

/-- The character that tells what a dash in front of it means. Of a comment only the sign that
begins it is passed over. -/
def afterDash (spaced : Bool) (cs : List Char) : Option Char :=
  if spaced then
    match cs.dropWhile Text.isBlank with
    | '#' :: rest => (rest.dropWhile Text.isBlank).head?.or cs.head?
    | rest => rest.head?.or cs.head?
  else cs.head?

/-! ### Escapes -/

/-- Reads so many hexadecimal digits. -/
def hexDigits? (spaced : Bool) : (count : Nat) → List Char → Option (List Char × List Char)
  | 0, cs => some ([], cs)
  | count + 1, cs =>
    match skip spaced cs with
    | c :: cs =>
      if Text.isHexDigit c then
        (hexDigits? spaced count cs).map fun (digits, rest) => (c :: digits, rest)
      else none
    | [] => none

/-- Reads the character that so many hexadecimal digits write; two of them write an octet. -/
def hex? (spaced : Bool) (count : Nat) (cs : List Char) : Option (Expression × List Char) :=
  match hexDigits? spaced count cs with
  | some (digits, rest) =>
    let n := Text.digitsValue 16 digits
    if n.isValidChar then some (.letter ⟨Char.ofNat n, count == 2⟩, rest) else none
  | none => none

/-- The letters that stand for a character behind a backslash. -/
def characterLetters : List (Char × Char) :=
  [('a', '\x07'), ('f', '\x0c'), ('t', '\t'), ('n', '\n'), ('r', '\r'), ('v', '\x0b')]

/-- Whether a character stands for itself behind a backslash. -/
def standsForItself (c : Char) : Bool := c.toNat < 128 && !c.isAlphanum && c != '<' && c != '>'

/-- Reads what follows a backslash. -/
def escape? (spaced : Bool) : List Char → Option (Expression × List Char)
  | [] => none
  | 'x' :: cs => hex? spaced 2 cs
  | 'u' :: cs => hex? spaced 4 cs
  | 'U' :: cs => hex? spaced 8 cs
  | c :: cs =>
    if ['d', 's', 'w'].contains c then some (.kind false, cs)
    else if ['D', 'S', 'W'].contains c then some (.kind true, cs)
    else if ['b', 'B', '<', '>'].contains c then some (.wordEdge, cs)
    else if ['A', 'z'].contains c then some (.anchor, cs)
    else
      match characterLetters.lookup c with
      | some d => some (.letter (.plain d), cs)
      | none => if standsForItself c then some (.letter (.plain c), cs) else none

end Stencil.Log.Pattern
