import Stencil.Pieces
import Stencil.Text.Utf8

/-!
# Paths

A path is a string of octets with slashes between its parts. The parts are what the path names:
empty parts do not count, nor does a `.` that is not at the very front.
-/

namespace Stencil

/-- A path as it is written. -/
structure Path where
  octets : Bytes
  deriving DecidableEq, Repr, Inhabited

namespace Path

/-- The path that a text writes. -/
def ofString (s : String) : Path := ⟨Bytes.ofString s⟩

/-- The path as a text, for messages. -/
def text (p : Path) : String := Utf8.lossy p.octets

/-- Whether the path begins at the root. -/
def isAbsolute (p : Path) : Bool := p.octets.head? == some 47

/-- The pieces between the slashes. -/
def split (bs : Bytes) : List Bytes := pieces 47 bs

/-- The path `q`, taken from the directory `p`. -/
def join (p q : Path) : Path :=
  if q.isAbsolute then q
  else
    match p.octets.getLast? with
    | none => q
    | some last => if last = 47 then ⟨p.octets ++ q.octets⟩ else ⟨p.octets ++ 47 :: q.octets⟩

/-- Pieces that name nothing. -/
def isBlank (piece : Bytes) : Bool := piece == [] || piece == [46]

/-- The front of a path that is no piece of its own kind (the root's slash or a leading `.`), and
the pieces behind it. -/
def frontAndPieces (p : Path) : Bytes × List Bytes :=
  match p.octets with
  | 47 :: rest => ([47], split rest)
  | [46] => ([46], [])
  | 46 :: 47 :: rest => ([46], [] :: split rest)
  | bs => ([], split bs)

/-- The pieces without the blank ones at the end, last piece first. -/
def named (pieces : List Bytes) : List Bytes := pieces.reverse.dropWhile isBlank

/-- The last name of a path, none if the path ends in `..` or names nothing. -/
def fileName? (p : Path) : Option Bytes :=
  match named p.frontAndPieces.2 with
  | name :: _ => if name = [46, 46] then none else some name
  | [] => none

/-- The path without its last part. -/
def parent? (p : Path) : Option Path :=
  let (front, pieces) := p.frontAndPieces
  match named pieces with
  | _ :: rest =>
    some ⟨front ++ List.intercalate [47] (rest.dropWhile isBlank).reverse⟩
  | [] => if front = [46] then some ⟨[]⟩ else none

/-- A part of a path, as a list that orders paths: the root comes before a leading `.`, that before
`..`, and all of them before names, which come in the order of their octets. -/
def partKey (piece : Bytes) : List Nat :=
  if piece = [46, 46] then [2] else 3 :: piece.map (·.toNat)

/-- The parts of a path, as lists that order paths part by part. -/
def key (p : Path) : List (List Nat) :=
  let (front, pieces) := p.frontAndPieces
  let first := if front = [47] then [[0]] else if front = [46] then [[1]] else []
  first ++ (pieces.filter (!isBlank ·)).map partKey

instance : LE Path := ⟨fun p q => @List.le (List Nat) List.instLT p.key q.key⟩

instance (p q : Path) : Decidable (p ≤ q) :=
  inferInstanceAs (Decidable (@List.le (List Nat) List.instLT p.key q.key))

end Path

end Stencil
