import Stencil.Bytes

/-!
# UTF-8, read one octet at a time

A machine that stands between characters or inside one accepts the next octet or refuses it. It
gives both readings of a byte string: `decode`, which fails at the offset where the longest
well-formed beginning ends, and `lossy`, which puts U+FFFD for every longest ill-formed piece.
-/

namespace Stencil.Utf8

/-- Where the machine stands between two octets. -/
inductive State where
  /-- Between characters. -/
  | between
  /-- Inside a character: `owed + 1` octets are missing, the next of them lies from `low` to
  `high`, and the octets before it have the value `value`. -/
  | inside (owed : Nat) (low high : UInt8) (value : Nat)
  deriving DecidableEq, Repr

/-- The state after the first octet of a character of two or more, none if no character begins
with it. -/
def lead (b : UInt8) : Option State :=
  if 0xC2 ≤ b ∧ b ≤ 0xDF then some (.inside 0 0x80 0xBF (b.toNat % 32))
  else if b = 0xE0 then some (.inside 1 0xA0 0xBF 0)
  else if b = 0xED then some (.inside 1 0x80 0x9F 13)
  else if 0xE1 ≤ b ∧ b ≤ 0xEF then some (.inside 1 0x80 0xBF (b.toNat % 16))
  else if b = 0xF0 then some (.inside 2 0x90 0xBF 0)
  else if b = 0xF4 then some (.inside 2 0x80 0x8F 4)
  else if 0xF1 ≤ b ∧ b ≤ 0xF3 then some (.inside 2 0x80 0xBF (b.toNat % 8))
  else none

/-- The machine takes one octet: the character that it completes, if it does, and the state after
it. It refuses an octet that cannot follow. -/
def State.feed : State → UInt8 → Option (Option Char × State)
  | .between, b =>
    if b < 0x80 then some (some (Char.ofNat b.toNat), .between)
    else (lead b).map (none, ·)
  | .inside owed low high value, b =>
    if low ≤ b ∧ b ≤ high then
      let value := value * 64 + b.toNat % 64
      match owed with
      | 0 => some (some (Char.ofNat value), .between)
      | owed + 1 => some (none, .inside owed 0x80 0xBF value)
    else none

/-- The replacement character, U+FFFD. -/
def replacement : Char := '\uFFFD'

/-- The characters read from a state on. A refused octet ends the ill-formed piece before it and
is read anew from between characters; if it is refused there too, it is a piece of its own. -/
def lossyFrom : State → Bytes → List Char
  | .between, [] => []
  | .inside .., [] => [replacement]
  | .between, b :: bs =>
    match State.between.feed b with
    | some (c, s) => c.toList ++ lossyFrom s bs
    | none => replacement :: lossyFrom .between bs
  | .inside owed low high value, b :: bs =>
    match (State.inside owed low high value).feed b with
    | some (c, s) => c.toList ++ lossyFrom s bs
    | none =>
      replacement ::
        match State.between.feed b with
        | some (c, s) => c.toList ++ lossyFrom s bs
        | none => replacement :: lossyFrom .between bs

/-- The text of a byte string, with U+FFFD for each longest ill-formed piece. -/
def lossy (bs : Bytes) : String := String.ofList (lossyFrom .between bs)

/-- The characters read from a state on, or the offset at which the character that is ill formed
begins. The character in progress began at `mark`, and `pos` octets came before. -/
def decodeFrom : (s : State) → (mark pos : Nat) → Bytes → Except Nat (List Char)
  | .between, _, _, [] => .ok []
  | .inside .., mark, _, [] => .error mark
  | s, mark, pos, b :: bs =>
    match s.feed b with
    | some (some c, s) => (decodeFrom s (pos + 1) (pos + 1) bs).map (c :: ·)
    | some (none, s) => decodeFrom s mark (pos + 1) bs
    | none => .error mark

/-- The text of a byte string, or the offset at which its longest well-formed beginning ends. -/
def decode (bs : Bytes) : Except Nat String :=
  (decodeFrom .between 0 0 bs).map String.ofList

end Stencil.Utf8
