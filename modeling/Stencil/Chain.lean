import Stencil.Text.Utf8

/-!
# Chains of chunks

Output is gathered as a chain of chunks, none of them empty, beside the number of octets in all of
them. Two chains are joined without a copy of their octets; the octets are joined when they are
asked for, or written chunk by chunk.
-/

namespace Stencil

/-- A chain of chunks. -/
structure Chain where
  chunks : List Bytes
  /-- The number of octets in all chunks. -/
  size : Nat
  deriving DecidableEq, Repr, Inhabited

/-- Why the octets of a chain are no text. -/
inductive TextFault where
  /-- A zero octet at `offset`. -/
  | zero (offset : Nat)
  /-- No character begins at `offset`. -/
  | illFormed (offset : Nat)
  deriving DecidableEq, Repr

namespace TextFault

/-- What is wrong, in words. -/
def message : TextFault → String
  | .zero offset => s!"output contains a NUL byte at offset {offset}"
  | .illFormed offset => s!"output is not valid UTF-8 at offset {offset}"

/-- Where it is. -/
def offset : TextFault → Nat
  | .zero offset => offset
  | .illFormed offset => offset

end TextFault

/-- An area of fixed length that is filled from its front. -/
structure Area where
  filled : Bytes
  free : Bytes
  deriving DecidableEq, Repr

namespace Area

/-- The octets of the area. -/
def content (a : Area) : Bytes := a.filled ++ a.free

/-- Writes as many octets as fit, and tells whether all did. -/
def write (a : Area) (bs : Bytes) : Area × Bool :=
  let n := min bs.length a.free.length
  (⟨a.filled ++ bs.take n, a.free.drop n⟩, n == bs.length)

end Area

namespace Chain

/-- The chain without chunks. -/
def empty : Chain := ⟨[], 0⟩

instance : EmptyCollection Chain := ⟨empty⟩

/-- Adds the octets as a last chunk, unless there are none. -/
def push (c : Chain) (bs : Bytes) : Chain :=
  if bs.isEmpty then c else ⟨c.chunks ++ [bs], c.size + bs.length⟩

/-- The chain of one chunk. -/
def ofBytes (bs : Bytes) : Chain := empty.push bs

/-- Adds each of the byte strings. -/
def extend (c : Chain) (values : List Bytes) : Chain := values.foldl push c

/-- Joins two chains. -/
def append (c d : Chain) : Chain := ⟨c.chunks ++ d.chunks, c.size + d.size⟩

instance : Append Chain := ⟨append⟩

/-- Moves all chunks of `d` to the end of `c`: what `c` and `d` are afterwards. -/
def drainInto (c d : Chain) : Chain × Chain := (c ++ d, empty)

/-- Whether there is no octet. -/
def isEmpty (c : Chain) : Bool := c.size == 0

/-- The number of chunks. -/
def chunkCount (c : Chain) : Nat := c.chunks.length

/-- The first chunk. -/
def front? (c : Chain) : Option Bytes := c.chunks.head?

/-- The last chunk. -/
def back? (c : Chain) : Option Bytes := c.chunks.getLast?

/-- Takes the first chunk off. -/
def popFront? (c : Chain) : Option (Bytes × Chain) :=
  match c.chunks with
  | [] => none
  | bs :: rest => some (bs, ⟨rest, c.size - bs.length⟩)

/-- Takes the last chunk off. -/
def popBack? (c : Chain) : Option (Bytes × Chain) :=
  match c.chunks.getLast? with
  | none => none
  | some bs => some (bs, ⟨c.chunks.dropLast, c.size - bs.length⟩)

/-- The octets of all chunks, in order. -/
def bytes (c : Chain) : Bytes := c.chunks.flatten

@[simp] theorem bytes_empty : empty.bytes = [] := rfl

@[simp] theorem bytes_push (c : Chain) (bs : Bytes) : (c.push bs).bytes = c.bytes ++ bs := by
  cases bs <;> simp [push, bytes]

@[simp] theorem bytes_ofBytes (bs : Bytes) : (ofBytes bs).bytes = bs := by
  simp [ofBytes]

@[simp] theorem bytes_append (c d : Chain) : (c ++ d).bytes = c.bytes ++ d.bytes :=
  List.flatten_append

theorem empty_append (c : Chain) : ∅ ++ c = c := by
  show append empty c = c
  simp [append, empty]

theorem append_empty (c : Chain) : c ++ ∅ = c := by
  show append c empty = c
  simp [append, empty]

theorem append_assoc (c d e : Chain) : c ++ d ++ e = c ++ (d ++ e) := by
  show append (append c d) e = append c (append d e)
  simp [append, Nat.add_assoc]

/-- The offset of the first zero octet, the head having the offset `i`. -/
def zeroFrom? : (i : Nat) → Bytes → Option Nat
  | _, [] => none
  | i, b :: bs => if b = 0 then some i else zeroFrom? (i + 1) bs

/-- The octets as a text, which holds no zero octet. -/
def text (c : Chain) : Except TextFault String :=
  match zeroFrom? 0 c.bytes with
  | some offset => .error (.zero offset)
  | none => (Utf8.decode c.bytes).mapError .illFormed

/-- Writes chunk by chunk into an area, until one does not fit. -/
def writeChunks : List Bytes → Area → Area × Bool
  | [], a => (a, true)
  | bs :: rest, a =>
    match a.write bs with
    | (a, true) => writeChunks rest a
    | (a, false) => (a, false)

/-- Writes the chain into an area: the area afterwards, and the number of octets written if all of
them fit. -/
def writeTo (c : Chain) (a : Area) : Area × Option Nat :=
  match writeChunks c.chunks a with
  | (a, true) => (a, some c.size)
  | (a, false) => (a, none)

end Chain

end Stencil
