/-!
# Readers of characters

A reader takes characters off the front of what is left of a text, or fails with the characters
that were left where it gave up.
-/

namespace Stencil.Toml

/-- Reads a value off the front of the characters that are left. -/
abbrev Reader (α : Type) := StateT (List Char) (Except (List Char)) α

namespace Reader

variable {α β : Type}

/-- Gives up. -/
def stop : Reader α := fun cs => .error cs

/-- The next character, which stays. -/
def peek? : Reader (Option Char) := fun cs => .ok (cs.head?, cs)

/-- Whether the text goes on with these characters, which stay. -/
def sees (word : List Char) : Reader Bool := fun cs => .ok (word.isPrefixOf cs, cs)

/-- A character of a class. -/
def char (p : Char → Bool) : Reader Char
  | c :: cs => if p c then .ok (c, cs) else .error (c :: cs)
  | [] => .error []

/-- These characters, in this order. -/
def word : List Char → Reader Unit
  | [] => pure ()
  | c :: cs => do
    discard (char (· == c))
    word cs

/-- All characters of a class up to the first other one. -/
def run (p : Char → Bool) : Reader (List Char) := fun cs => .ok (cs.span p)

/-- The first reader, or the second one from the same place if the first one fails. -/
def either (x y : Reader α) : Reader α := fun cs =>
  match x cs with
  | .ok r => .ok r
  | .error _ => y cs

/-- What the reader reads, or nothing at all if it fails. -/
def opt (x : Reader α) : Reader (Option α) := either (some <$> x) (pure none)

/-- Takes steps while they yield something, at most one for each member of a list. -/
def steps (step : Reader (Option α)) : List β → Reader (List α)
  | [] => pure []
  | _ :: bound => do
    match ← step with
    | some a => return a :: (← steps step bound)
    | none => return []

/-- Takes steps until one yields nothing. Every step but the last one takes a character off, so
that there is at most one for each character and one more. -/
def gather (step : Reader (Option α)) : Reader (List α) := fun cs =>
  steps step ('\n' :: cs) cs

/-- One reading or more, with a comma or the like between them. -/
def separated (x : Reader α) (mark : Char) : Reader (List α) := do
  let first ← x
  let more ← gather do
    if ← sees [mark] then
      word [mark]
      return some (← x)
    else return none
  return first :: more

end Reader

end Stencil.Toml
