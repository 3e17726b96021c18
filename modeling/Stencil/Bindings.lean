import Stencil.Bytes
import Stencil.Named

/-!
# Binding sets

A binding set is one scope of template data: variables, and loops whose children are scopes of
their own. Variables and loops do not share their names: one name may have both.
-/

namespace Stencil

/-- One scope of template data. -/
structure Bindings where
  scalars : List (String × Bytes)
  /-- The child scopes of each loop, one per round. -/
  loops : List (String × List Bindings)
  deriving Repr, Inhabited

namespace Bindings

/-- The scope in which nothing is bound. -/
def empty : Bindings := ⟨[], []⟩

instance : EmptyCollection Bindings := ⟨empty⟩

/-- The value of a variable. -/
def get? (b : Bindings) (n : String) : Option Bytes := Named.get? n b.scalars

/-- The children of a loop. -/
def loop? (b : Bindings) (n : String) : Option (List Bindings) := Named.get? n b.loops

/-- Gives a variable a value that is taken over, whether it had one or not. -/
def setOwned (b : Bindings) (n : String) (v : Bytes) : Bindings :=
  { b with scalars := Named.put n v b.scalars }

/-- Gives a variable the octets of a text. -/
def setText (b : Bindings) (n : String) (text : String) : Bindings := b.setOwned n (.ofString text)

/-- Gives a variable a value that is copied: over the octets that it has, or else as a new one. -/
def set (b : Bindings) (n : String) (v : Bytes) : Bindings :=
  match b.get? n with
  | some _ => { b with scalars := Named.modify n (fun _ => v) b.scalars }
  | none => b.setOwned n v

/-- Takes a variable away, and gives the value that it had. -/
def take (b : Bindings) (n : String) : Option Bytes × Bindings :=
  (b.get? n, { b with scalars := Named.erase n b.scalars })

/-- What is left without a variable. -/
def remove (b : Bindings) (n : String) : Bindings := (b.take n).2

/-- Gives a loop its children, whether there was such a loop or not. -/
def setLoop (b : Bindings) (n : String) (children : List Bindings) : Bindings :=
  { b with loops := Named.put n children b.loops }

/-- Adds a loop without children, unless there is one of the name. -/
def addLoop (b : Bindings) (n : String) : Bindings :=
  match b.loop? n with
  | some _ => b
  | none => b.setLoop n []

/-- Adds a child at the end of a loop, and the loop itself where there is none. -/
def addChild (b : Bindings) (n : String) (child : Bindings) : Bindings :=
  b.setLoop n ((b.loop? n).getD [] ++ [child])

/-- The truth of a name: a variable is true unless it is empty or `0`; where there is no variable,
a loop is true if it has a child. -/
def condition (b : Bindings) (n : String) : Bool :=
  match b.get? n with
  | some v => v ≠ [] && v ≠ [48]
  | none =>
    match b.loop? n with
    | some children => !children.isEmpty
    | none => false

@[simp] theorem get?_empty (n : String) : (∅ : Bindings).get? n = none := rfl

@[simp] theorem loop?_empty (n : String) : (∅ : Bindings).loop? n = none := rfl

/-- Copied or taken over, the value is the same. -/
@[simp] theorem set_eq_setOwned (b : Bindings) (n : String) (v : Bytes) :
    b.set n v = b.setOwned n v := by
  unfold set
  rcases hn : b.get? n with _ | w
  · rfl
  · rw [setOwned, ← Named.modify_eq_put n v hn]

@[simp] theorem get?_setOwned (b : Bindings) (n k : String) (v : Bytes) :
    (b.setOwned k v).get? n = if n = k then some v else b.get? n := Named.get?_put n k v b.scalars

@[simp] theorem loop?_setOwned (b : Bindings) (n k : String) (v : Bytes) :
    (b.setOwned k v).loop? n = b.loop? n := rfl

@[simp] theorem get?_setLoop (b : Bindings) (n k : String) (children : List Bindings) :
    (b.setLoop k children).get? n = b.get? n := rfl

@[simp] theorem loop?_setLoop (b : Bindings) (n k : String) (children : List Bindings) :
    (b.setLoop k children).loop? n = if n = k then some children else b.loop? n :=
  Named.get?_put n k children b.loops

/-- Whether there is no such loop or an empty one makes no difference to the truth of a name. -/
theorem condition_eq (b : Bindings) (n : String) : b.condition n =
    match b.get? n with
    | some v => v ≠ [] && v ≠ [48]
    | none => !((b.loop? n).getD []).isEmpty := by
  unfold condition
  rcases b.get? n with _ | v
  · rcases b.loop? n with _ | children <;> rfl
  · rfl

/-- Whether nothing is bound. -/
def isEmpty (b : Bindings) : Bool := b.scalars.isEmpty && b.loops.isEmpty

mutual

/-- Whether two scopes bind the same names to the same values, in whatever order. -/
def same : Bindings → Bindings → Bool
  | ⟨vs, ls⟩, b =>
    vs.length == b.scalars.length && ls.length == b.loops.length
      && vs.all (fun (n, v) => b.get? n == some v) && sameLoops ls b

/-- Whether the scope has each of the loops, with the same children. -/
def sameLoops : List (String × List Bindings) → Bindings → Bool
  | [], _ => true
  | (n, children) :: rest, b =>
    (match b.loop? n with
      | some others => sameChildren children others
      | none => false) && sameLoops rest b

/-- Whether two loops have as many children, and the same ones. -/
def sameChildren : List Bindings → List Bindings → Bool
  | [], [] => true
  | c :: cs, d :: ds => same c d && sameChildren cs ds
  | _, _ => false

end

instance : BEq Bindings := ⟨same⟩

end Bindings

end Stencil
