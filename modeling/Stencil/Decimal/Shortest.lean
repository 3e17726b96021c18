import Stencil.Decimal.Binary64

/-!
# The fewest digits that read back

A binary number stands for all reals that are nearer to it than to its neighbours. Its shortest
decimal is the one with the fewest digits in that interval, and of those with equally many digits
the nearest. It is written without an exponent.
-/

namespace Stencil.Binary64

/-- Compares `a * 10 ^ i` with `b * 2 ^ j`. -/
def compareScaled (a : Nat) (i : Int) (b : Nat) (j : Int) : Ordering :=
  compare (a * Nat.pow 10 i.toNat * Nat.pow 2 (-j).toNat)
    (b * Nat.pow 2 j.toNat * Nat.pow 10 (-i).toNat)

/-- Whether `d * 10 ^ e` is read as `m * 2 ^ q`. The gap to the number below is half as wide where
`m` is the least of 53 digits, and the ends belong to even numbers. -/
def readsBack (m : Nat) (q : Int) (d : Nat) (e : Int) : Bool :=
  let low := if m = Nat.pow 2 52 ∧ q ≠ leastExponent then 4 * m - 1 else 4 * m - 2
  let below := compareScaled d e low (q - 2)
  let above := compareScaled d e (4 * m + 2) (q - 2)
  (below == .gt || m % 2 == 0 && below == .eq) && (above == .lt || m % 2 == 0 && above == .eq)

/-- The least `k` with `m * 2 ^ q < 10 ^ k`, among `k`, `k + 1` and so on. -/
def magnitudeFrom (m : Nat) (q : Int) : (steps : Nat) → (k : Int) → Int
  | 0, k => k
  | steps + 1, k => if compareScaled 1 k m q == .gt then k else magnitudeFrom m q steps (k + 1)

/-- The least `k` with `m * 2 ^ q < 10 ^ k`. -/
def magnitude (m : Nat) (q : Int) : Int :=
  magnitudeFrom m q 4 (((Nat.log2 m : Int) + q) * 30103 / 100000 - 1)

/-- The nearest multiple of `10 ^ e` that is read as `m * 2 ^ q`, the greater one of two. -/
def nearest? (m : Nat) (q : Int) (e : Int) : Option Nat :=
  let floor := m * Nat.pow 2 q.toNat * Nat.pow 10 (-e).toNat
    / (Nat.pow 10 e.toNat * Nat.pow 2 (-q).toNat)
  match readsBack m q floor e, readsBack m q (floor + 1) e with
  | true, true =>
    if compareScaled (2 * floor + 1) e m (q + 1) == .gt then some floor else some (floor + 1)
  | true, false => some floor
  | false, true => some (floor + 1)
  | false, false => none

/-- Takes zeros off the end of the digits. -/
def trim : (steps : Nat) → (digits : Nat) → (e : Int) → Nat × Int
  | 0, digits, e => (digits, e)
  | steps + 1, digits, e =>
    if digits % 10 = 0 then trim steps (digits / 10) (e + 1) else (digits, e)

/-- The shortest decimal of `m * 2 ^ q`: its digits, and the power of ten that they count. -/
def shortest (m : Nat) (q : Int) : Nat × Int :=
  let k := magnitude m q
  let found? := (List.range 17).findSome? fun (n : Nat) =>
    let e := k - (n + 1)
    (nearest? m q e).map (·, e)
  match found? with
  | some (digits, e) => trim 17 digits e
  | none => (m * Nat.pow 2 q.toNat * Nat.pow 5 (-q).toNat, min q 0)

/-- Digits with the point where the power of ten puts it. -/
def positional (digits : Nat) (e : Int) : String :=
  let ds := Nat.toDigits 10 digits
  let places := (-e).toNat
  if places = 0 then String.ofList (ds ++ List.replicate e.toNat '0')
  else if places < ds.length then
    String.ofList (ds.take (ds.length - places) ++ '.' :: ds.drop (ds.length - places))
  else String.ofList ('0' :: '.' :: List.replicate (places - ds.length) '0' ++ ds)

/-- The text of a number: the shortest decimal, without an exponent. -/
def text : Binary64 → String
  | .nan => "NaN"
  | .infinite negative => if negative then "-inf" else "inf"
  | .finite negative m q =>
    let magnitude :=
      if m = 0 then "0"
      else
        let (digits, e) := shortest m q
        positional digits e
    if negative then "-" ++ magnitude else magnitude

end Stencil.Binary64
