import Stencil.Text.Digits
import Stencil.Toml.Reader
import Stencil.Toml.Value

/-!
# Reading scalars

Strings in their four forms, points in time, and numbers. Digits of a number may be grouped by
single underscores, and an integer has to fit into 64 bits.
-/

namespace Stencil.Toml

namespace Reader

/-- Space and tab. -/
def isBlank (c : Char) : Bool := c == ' ' || c == '\t'

/-- Characters that a comment may hold: all but the controls, of which the tab alone is allowed. -/
def isPlain (c : Char) : Bool := c == '\t' || ' ' ≤ c && c != '\x7f'

/-- Spaces and tabs. -/
def blanks : Reader Unit := discard (run isBlank)

/-- The end of a line. -/
def newline : Reader Unit := either (word ['\n']) (word ['\r', '\n'])

/-- Spaces, tabs and line ends. -/
def blankLines : Reader Unit :=
  discard <| gather do
    match ← peek? with
    | some c =>
      if isBlank c then some <$> blanks
      else if c == '\n' || c == '\r' then opt newline
      else return none
    | none => return none

/-! ### Strings -/

/-- Exactly so many characters of a class. -/
def exactly (p : Char → Bool) : Nat → Reader (List Char)
  | 0 => pure []
  | n + 1 => do
    let c ← char p
    return c :: (← exactly p n)

/-- The character with the number that so many hexadecimal digits write. -/
def scalarChar (digits : Nat) : Reader Char := do
  let n := Text.digitsValue 16 (← exactly Text.isHexDigit digits)
  if n.isValidChar then return Char.ofNat n else stop

/-- What follows a backslash. -/
def escaped : Reader Char := do
  match ← char fun _ => true with
  | 'b' => return '\x08'
  | 't' => return '\t'
  | 'n' => return '\n'
  | 'f' => return '\x0c'
  | 'r' => return '\r'
  | '"' => return '"'
  | '\\' => return '\\'
  | 'u' => scalarChar 4
  | 'U' => scalarChar 8
  | _ => stop

/-- A string between double quotes, on one line. -/
def basicString : Reader String := do
  word ['"']
  let cs ← gather do
    match ← peek? with
    | some '"' => return none
    | some '\\' => do
      word ['\\']
      return some (← escaped)
    | _ => some <$> char isPlain
  word ['"']
  return String.ofList cs

/-- A string between single quotes, on one line. -/
def literalString : Reader String := do
  word ['\'']
  let cs ← run fun c => isPlain c && c != '\''
  word ['\'']
  return String.ofList cs

/-- The quotes that end a string of several lines: three, and before them up to two of the
string's own, which are read. -/
def closingQuotes (quote : Char) (quotes : List Char) : Reader (List Char) :=
  match quotes.length with
  | 3 => word quotes *> pure []
  | 4 => word quotes *> pure [quote]
  | _ => word (quotes.take 5) *> pure [quote, quote]

/-- A string of several lines between three quotes. A line end right after the first three is left
out, and every other one counts as a line feed. `special` reads what begins with a backslash. -/
def manyLines (quote : Char) (special : Reader (Option (List Char))) : Reader String := do
  word [quote, quote, quote]
  discard (opt newline)
  let parts ← gather do
    match ← special with
    | some cs => return some cs
    | none =>
      match ← peek? with
      | some c =>
        if c == quote then
          if ← sees [quote, quote, quote] then return none
          else some <$> run (· == quote)
        else if c == '\n' || c == '\r' then
          newline
          return some ['\n']
        else do
          let c ← char isPlain
          return some [c]
      | none => stop
  let quotes := (← get).takeWhile (· == quote)
  let own ← closingQuotes quote quotes
  return String.ofList (parts.flatten ++ own)

/-- A backslash: before the end of its line it takes away that and all blank space behind it. -/
def continued : Reader (Option (List Char)) := do
  if ← sees ['\\'] then
    word ['\\']
    let lineEnd ← opt (blanks *> newline)
    match lineEnd with
    | some _ => do
      blankLines
      return some []
    | none => do
      let c ← escaped
      return some [c]
  else return none

/-- A string in any of its four forms. -/
def string : Reader String := do
  if ← sees ['"', '"', '"'] then manyLines '"' continued
  else if ← sees ['\'', '\'', '\''] then manyLines '\'' (pure none)
  else if ← sees ['"'] then basicString
  else literalString

/-! ### Points in time -/

/-- A number of so many digits within bounds. -/
def numeral (digits least greatest : Nat) : Reader Nat := do
  let n := Text.digitsValue 10 (← exactly Char.isDigit digits)
  if least ≤ n ∧ n ≤ greatest then return n else stop

/-- A day of the calendar. -/
def date : Reader Date := do
  let year ← numeral 4 0 9999
  word ['-']
  let month ← numeral 2 1 12
  word ['-']
  let day ← numeral 2 1 (Date.daysIn year month)
  return ⟨year, month, day⟩

/-- The fraction of a second in nanoseconds; digits after the ninth do not count. -/
def fraction : Reader Nat := do
  word ['.']
  let first ← char Char.isDigit
  let digits := (first :: (← run Char.isDigit)).take 9
  return Text.digitsValue 10 digits * Nat.pow 10 (9 - digits.length)

/-- A time of day. -/
def time : Reader Time := do
  let hour ← numeral 2 0 23
  word [':']
  let minute ← numeral 2 0 59
  word [':']
  let second ← numeral 2 0 60
  let nanosecond ← if ← sees ['.'] then fraction else pure 0
  return ⟨hour, minute, second, nanosecond⟩

/-- An offset from universal time. -/
def offset : Reader Offset := do
  let sign ← char fun c => c == 'Z' || c == 'z' || c == '+' || c == '-'
  if sign == 'Z' || sign == 'z' then return .zulu
  else do
    let hours ← numeral 2 0 23
    word [':']
    let minutes ← numeral 2 0 59
    let n : Int := hours * 60 + minutes
    return .minutes (if sign == '-' then -n else n)

/-- A time of day that follows a day, divided from it by a `T` or a space. -/
def timeOfDay : Reader Time := do
  discard (char fun c => c == 'T' || c == 't' || c == ' ')
  time

/-- A point in time. -/
def datetime : Reader Datetime :=
  either
    (do
      let d ← date
      match ← opt timeOfDay with
      | none => return .date d
      | some t => do
        match ← opt offset with
        | none => return .local d t
        | some o => return .offset d t o)
    (.time <$> time)

/-! ### Numbers -/

/-- Digits of a class, grouped by underscores, of which none is first or last or beside another. -/
def grouped (p : Char → Bool) : Reader (List Char) := do
  let first ← char p
  let more ← gather do
    match ← peek? with
    | some '_' => do
      word ['_']
      some <$> char p
    | some c => if p c then some <$> char p else return none
    | none => return none
  return first :: more

/-- The sign of a number, if it has one. -/
def sign : Reader (List Char) := do
  match ← opt (char fun c => c == '+' || c == '-') with
  | some c => return [c]
  | none => return []

/-- The digits of an integer: no zero is in front of others. -/
def wholeDigits : Reader (List Char) := do
  if ← sees ['0'] then
    word ['0']
    return ['0']
  else grouped Char.isDigit

/-- The exponent of a float. -/
def exponent : Reader (List Char) := do
  let mark ← char fun c => c == 'e' || c == 'E'
  let s ← sign
  return mark :: s ++ (← grouped Char.isDigit)

/-- The text of a float without its underscores: digits with a fraction, an exponent or both. -/
def floatDigits : Reader (List Char) := do
  let s ← sign
  let whole ← wholeDigits
  if ← sees ['.'] then
    word ['.']
    let fraction ← grouped Char.isDigit
    let e ← opt exponent
    return s ++ whole ++ '.' :: fraction ++ e.getD []
  else return s ++ whole ++ (← exponent)

/-- A float. One that is too great for the format is refused, though not one too far below zero. -/
def finiteFloat : Reader Binary64 := do
  match Binary64.ofText? (← floatDigits) with
  | some (.infinite false) => stop
  | some x => return x
  | none => stop

/-- An infinity, or what is no number. -/
def specialFloat : Reader Binary64 := do
  let s ← sign
  if ← sees ['i'] then
    word ['i', 'n', 'f']
    return .infinite (s == ['-'])
  else
    word ['n', 'a', 'n']
    return .nan

/-- The least integer of 64 bits. -/
def leastInteger : Int := -9223372036854775808

/-- The greatest integer of 64 bits. -/
def greatestInteger : Int := 9223372036854775807

/-- An integer that fits into 64 bits. -/
def fitting (n : Int) : Reader Int :=
  if leastInteger ≤ n ∧ n ≤ greatestInteger then pure n else stop

/-- An integer in a base that its first two characters tell. -/
def based (mark : Char) (base : Nat) (p : Char → Bool) : Reader Int := do
  word ['0', mark]
  let digits ← grouped p
  fitting (Text.digitsValue base digits)

/-- An integer. -/
def integer : Reader Int := do
  if ← sees ['0', 'x'] then based 'x' 16 Text.isHexDigit
  else if ← sees ['0', 'o'] then based 'o' 8 fun c => '0' ≤ c && c ≤ '7'
  else if ← sees ['0', 'b'] then based 'b' 2 fun c => c == '0' || c == '1'
  else do
    let s ← sign
    let n : Int := Text.digitsValue 10 (← wholeDigits)
    fitting (if s == ['-'] then -n else n)

/-- A value that begins with a digit or a sign. -/
def numberOrDatetime : Reader Value :=
  either (.datetime <$> datetime) <|
    either (.float <$> either finiteFloat specialFloat) (.integer <$> integer)

/-- A value that holds no other values. -/
def scalar : Reader Value := do
  match ← peek? with
  | some c =>
    if c == '"' || c == '\'' then .string <$> string
    else if c == '+' || c == '-' || c.isDigit then numberOrDatetime
    else if c == 't' then word ['t', 'r', 'u', 'e'] *> pure (.boolean true)
    else if c == 'f' then word ['f', 'a', 'l', 's', 'e'] *> pure (.boolean false)
    else .float <$> specialFloat
  | none => stop

end Reader

/-- The point in time that a whole text writes. -/
def Datetime.ofText? (s : String) : Option Datetime :=
  match Reader.datetime s.toList with
  | .ok (d, []) => some d
  | _ => none

end Stencil.Toml
