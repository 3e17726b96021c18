/-!
# Pieces between marks

A list is cut at every occurrence of a mark, which belongs to no piece. There is one piece more
than there are marks.
-/

namespace Stencil

variable {α : Type} [DecidableEq α]

/-- The pieces of a list between the occurrences of a mark. -/
def pieces (mark : α) : List α → List (List α)
  | [] => [[]]
  | a :: rest =>
    if a = mark then [] :: pieces mark rest
    else
      match pieces mark rest with
      | [] => [[a]]
      | piece :: more => (a :: piece) :: more

/-- Whether a list occurs in another one, in one piece. -/
def occursIn (word : List α) : List α → Bool
  | [] => word.isEmpty
  | a :: rest => word.isPrefixOf (a :: rest) || occursIn word rest

/-- The list without a word at its end. -/
def dropSuffix (word list : List α) : List α :=
  if word.isSuffixOf list then list.take (list.length - word.length) else list

/-- The list without any of the word's repetitions at its end. -/
def dropSuffixes (word list : List α) : List α := Nat.repeat (dropSuffix word) list.length list

end Stencil
