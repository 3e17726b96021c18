import Stencil.Toml.Scalar

/-!
# Settled data

Data is settled when the entries of every table are in the order of their names and no table is
marked. A marked table stands for a point in time: its first entry has a reserved name, and the
text under it is the point in time. A mark over anything else cannot be settled.
-/

namespace Stencil.Toml

namespace Table

/-- Whether the first entry has the reserved name. -/
def isMarked (t : Table) : Bool := t.head?.any (·.1 == Datetime.mark)

/-- The point in time that a marked table stands for. -/
def instant? : Table → Option Datetime
  | (_, .string s) :: _ => Datetime.ofText? s
  | _ => none

end Table

mutual

/-- The value, settled, if it can be. -/
def Value.settled? : Value → Option Value
  | .table t =>
    if Table.isMarked t then (Table.instant? t).map .datetime
    else (Value.entriesSettled? t).map fun es => .table (Table.ofEntries es)
  | .array items => (Value.itemsSettled? items).map .array
  | v => some v

/-- The entries with their values settled. -/
def Value.entriesSettled? : List (String × Value) → Option (List (String × Value))
  | [] => some []
  | (name, v) :: rest =>
    match v.settled?, Value.entriesSettled? rest with
    | some v, some rest => some ((name, v) :: rest)
    | _, _ => none

/-- The items, settled. -/
def Value.itemsSettled? : List Value → Option (List Value)
  | [] => some []
  | v :: rest =>
    match v.settled?, Value.itemsSettled? rest with
    | some v, some rest => some (v :: rest)
    | _, _ => none

end

/-- The table, settled, if its values can be. The table itself is data whether it is marked or
not. -/
def Table.settled? (t : Table) : Option Table := (Value.entriesSettled? t).map Table.ofEntries

end Stencil.Toml
