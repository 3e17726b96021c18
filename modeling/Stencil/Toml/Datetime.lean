/-!
# Dates and times

The four forms that a point in time takes in a document, and their text: date and time are divided
by `T`, a fraction of a second ends in no zero, and an offset is `Z` or hours and minutes.
-/

namespace Stencil.Toml

/-- A day of the calendar. -/
structure Date where
  year : Nat
  month : Nat
  day : Nat
  deriving DecidableEq, Repr, Inhabited

/-- A time of day. -/
structure Time where
  hour : Nat
  minute : Nat
  second : Nat
  nanosecond : Nat
  deriving DecidableEq, Repr, Inhabited

/-- The distance from universal time. -/
inductive Offset where
  | zulu
  | minutes (n : Int)
  deriving DecidableEq, Repr, Inhabited

/-- A point in time, or the part of one that is given. -/
inductive Datetime where
  | date (d : Date)
  | time (t : Time)
  | local (d : Date) (t : Time)
  | offset (d : Date) (t : Time) (o : Offset)
  deriving DecidableEq, Repr, Inhabited

/-- The name that marks a table as a point in time. -/
def Datetime.mark : String := "$__toml_private_datetime"

/-- The days of a month. -/
def Date.daysIn (year month : Nat) : Nat :=
  if month = 2 then
    if year % 4 = 0 ∧ (year % 100 ≠ 0 ∨ year % 400 = 0) then 29 else 28
  else if month = 4 ∨ month = 6 ∨ month = 9 ∨ month = 11 then 30
  else 31

/-- A number with zeros in front of it, up to a width. -/
def padded (width n : Nat) : String :=
  let digits := Nat.toDigits 10 n
  String.ofList (List.replicate (width - digits.length) '0' ++ digits)

/-- The digits of a fraction of a second, without the zeros at their end. -/
def Time.fraction (nanosecond : Nat) : String :=
  String.ofList ((padded 9 nanosecond).toList.reverse.dropWhile (· == '0')).reverse

/-- The text of a day. -/
def Date.text (d : Date) : String :=
  padded 4 d.year ++ "-" ++ padded 2 d.month ++ "-" ++ padded 2 d.day

/-- The text of a time of day. -/
def Time.text (t : Time) : String :=
  padded 2 t.hour ++ ":" ++ padded 2 t.minute ++ ":" ++ padded 2 t.second ++
    if t.nanosecond = 0 then "" else "." ++ Time.fraction t.nanosecond

/-- The text of an offset. No minutes at all count as ahead. -/
def Offset.text : Offset → String
  | .zulu => "Z"
  | .minutes n =>
    (if n < 0 then "-" else "+") ++ padded 2 (n.natAbs / 60) ++ ":" ++ padded 2 (n.natAbs % 60)

/-- The text of a point in time. -/
def Datetime.text : Datetime → String
  | .date d => d.text
  | .time t => t.text
  | .local d t => d.text ++ "T" ++ t.text
  | .offset d t o => d.text ++ "T" ++ t.text ++ o.text

end Stencil.Toml
