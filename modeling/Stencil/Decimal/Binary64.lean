import Stencil.Text.Digits

/-!
# Binary numbers nearest to decimal ones

A finite number is `m * 2 ^ q` with `m` below `2 ^ 53`. A decimal number is read as the nearest of
these, and of two that are equally near as the one with the even `m`. All arithmetic is exact.
-/

namespace Stencil

/-- A number of the format with 53 binary digits. -/
inductive Binary64 where
  | nan
  | infinite (negative : Bool)
  /-- `m * 2 ^ q`, where `m` has 53 binary digits or `q` is as small as it can be. -/
  | finite (negative : Bool) (m : Nat) (q : Int)
  deriving DecidableEq, Repr, Inhabited

namespace Binary64

/-- The smallest exponent. -/
def leastExponent : Int := -1074

/-- The greatest exponent of a finite number. -/
def greatestExponent : Int := 971

/-- The integer nearest to `num / den`, the even one of two. -/
def roundDiv (num den : Nat) : Nat :=
  let floor := num / den
  match compare (2 * (num % den)) den with
  | .lt => floor
  | .gt => floor + 1
  | .eq => if floor % 2 = 0 then floor else floor + 1

/-- The number nearest to `num / den`, both positive. -/
def ofRatio (negative : Bool) (num den : Nat) : Binary64 :=
  let scaled (q : Int) : Nat × Nat := (num * Nat.pow 2 (-q).toNat, den * Nat.pow 2 q.toNat)
  let q := (Nat.log2 num : Int) - Nat.log2 den - 53
  let (a, b) := scaled q
  let q := max (if Nat.pow 2 53 * b ≤ a then q + 1 else q) leastExponent
  let (a, b) := scaled q
  let m := roundDiv a b
  let (m, q) := if m = Nat.pow 2 53 then (Nat.pow 2 52, q + 1) else (m, q)
  if greatestExponent < q then .infinite negative else .finite negative m q

/-- The number of decimal digits. -/
def digitCount (n : Nat) : Nat := (Nat.toDigits 10 n).length

/-- The number nearest to `digits * 10 ^ exponent`. Numbers far beyond the format are infinite, or
zero, without being computed. -/
def ofDecimal (negative : Bool) (digits : Nat) (exponent : Int) : Binary64 :=
  let magnitude := (digitCount digits : Int) + exponent
  if digits = 0 ∨ magnitude < -400 then .finite negative 0 leastExponent
  else if 400 < magnitude then .infinite negative
  else ofRatio negative (digits * Nat.pow 10 exponent.toNat) (Nat.pow 10 (-exponent).toNat)

/-- The number that decimal digits write, and what follows them. -/
def readDigits (cs : List Char) : List Char × List Char := cs.span Char.isDigit

/-- A sign, true for minus, and what follows it. -/
def readSign : List Char → Bool × List Char
  | '-' :: cs => (true, cs)
  | '+' :: cs => (false, cs)
  | cs => (false, cs)

/-- The exponent that a text ends with; none at all is zero. -/
def readExponent? : List Char → Option Int
  | [] => some 0
  | c :: cs =>
    if c = 'e' ∨ c = 'E' then
      let (negative, cs) := readSign cs
      if cs ≠ [] ∧ cs.all Char.isDigit then
        some (if negative then -(Text.digitsValue 10 cs : Int) else Text.digitsValue 10 cs)
      else none
    else none

/-- Reads a decimal number: digits with or without a point among them, and an exponent if there is
one, or `inf` or `nan` in letters of any case. -/
def ofText? (cs : List Char) : Option Binary64 :=
  let (negative, cs) := readSign cs
  let word := String.ofList (cs.map Char.toLower)
  if word = "inf" ∨ word = "infinity" then some (.infinite negative)
  else if word = "nan" then some .nan
  else
    let (whole, cs) := readDigits cs
    let (fraction, cs) :=
      match cs with
      | '.' :: cs => readDigits cs
      | cs => ([], cs)
    if whole ++ fraction = [] then none
    else
      (readExponent? cs).map fun e =>
        ofDecimal negative (Text.digitsValue 10 (whole ++ fraction)) (e - fraction.length)

end Binary64

end Stencil
