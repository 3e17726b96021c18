/-!
# Octets

Template text, bound values and rendered output are strings of octets: a template may hold any
file's content, and no text encoding is assumed of it. This file has the slices of such a string
and the comparison that ignores the case of ASCII letters.
-/

namespace Stencil

/-- A string of octets. -/
abbrev Bytes := List UInt8

namespace Bytes

/-- The UTF-8 octets of a text. -/
def ofString (s : String) : Bytes := s.toUTF8.data.toList

/-- The octets at the offsets from `start` up to, and without, `stop`. -/
def slice (bs : Bytes) (start stop : Nat) : Bytes := (bs.drop start).take (stop - start)

/-- Capital ASCII letters become small ones; every other octet stays. -/
def lower (b : UInt8) : UInt8 := if 65 ≤ b ∧ b ≤ 90 then b + 32 else b

/-- What follows `word` at the head of the octets, the case of ASCII letters aside. -/
def dropWord? : (word bs : Bytes) → Option Bytes
  | [], bs => some bs
  | _ :: _, [] => none
  | w :: word, b :: bs => if lower w = lower b then dropWord? word bs else none

/-- The number of `x` at the head of the octets, and what follows them. -/
def skip (x : UInt8) : Bytes → Nat × Bytes
  | [] => (0, [])
  | b :: bs =>
    if b = x then
      let (n, rest) := skip x bs
      (n + 1, rest)
    else (0, b :: bs)

end Bytes

end Stencil
