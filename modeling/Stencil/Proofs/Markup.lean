import Stencil.Proofs.Reading

/-!
# Templates as trees

A tree of parts has its tags in order and the texts between them. A source spells the tree if it has
the same tags, spelled in whatever way, and the same texts (`Markup.Spells`). What a tree means is
told by recursion over it, without links or offsets (`Markup.eval`).

An else goes to every conditional block that is open around it, one of each kind. So a tree is
plain only if no conditional block with an else stands inside one of the other kind.
-/

namespace Stencil

/-- What a tag says, wherever it stands and however it is spelled. -/
structure Mark where
  kind : Kind
  name : Option String
  closes : Bool
  deriving DecidableEq, Repr

namespace Tag

/-- What the tag says. -/
def mark (t : Tag) : Mark := ⟨t.kind, t.name, t.closes⟩

/-- The texts from the offset `pos` on, one in front of each tag and one behind the last. -/
def texts (source : Bytes) : (pos : Nat) → List Tag → List Bytes
  | pos, [] => [source.slice pos source.length]
  | pos, t :: rest => source.slice pos t.span.start :: texts source t.span.stop rest

theorem length_texts (source : Bytes) : ∀ (pos : Nat) (tags : List Tag),
    (texts source pos tags).length = tags.length + 1
  | _, [] => rfl
  | _, t :: tags => by
    rw [texts, List.length_cons, length_texts source t.span.stop tags, List.length_cons]

end Tag

/-- The kind of a conditional block. -/
def Kind.conditional (negated : Bool) : Kind := if negated then .unlessBlock else .ifBlock

@[simp] theorem Kind.isBlock_conditional (negated : Bool) : (conditional negated).isBlock := by
  cases negated <;> rfl

@[simp] theorem Kind.isBlock_loopBlock : loopBlock.isBlock := rfl

/-- A template as a tree: its first part, with the parts inside of it, and the parts behind it. -/
inductive Markup where
  | nil
  | text (value : Bytes) (next : Markup)
  | var (name : String) (next : Markup)
  | paste (short : Bool) (name : String) (next : Markup)
  /-- A conditional block without an else. -/
  | branch (negated : Bool) (name : String) (body next : Markup)
  /-- A conditional block with an else. -/
  | either (negated : Bool) (name : String) (body other next : Markup)
  | loop (name : String) (body next : Markup)

namespace Markup

/-- The tags, in order. -/
def marks : Markup → List Mark
  | nil => []
  | text _ next => next.marks
  | var name next => ⟨.var, some name, false⟩ :: next.marks
  | paste short name next => ⟨if short then .incl else .includes, some name, false⟩ :: next.marks
  | branch negated name body next =>
    ⟨.conditional negated, some name, false⟩ ::
      (body.marks ++ ⟨.conditional negated, none, true⟩ :: next.marks)
  | either negated name body other next =>
    ⟨.conditional negated, some name, false⟩ ::
      (body.marks ++ ⟨.elseMark, none, false⟩ ::
        (other.marks ++ ⟨.conditional negated, none, true⟩ :: next.marks))
  | loop name body next =>
    ⟨.loopBlock, some name, false⟩ :: (body.marks ++ ⟨.loopBlock, none, true⟩ :: next.marks)

/-- Puts text in front of the first of the texts. -/
def inFront (value : Bytes) : List Bytes → List Bytes
  | [] => [value]
  | s :: ss => (value ++ s) :: ss

/-- The texts, one in front of each tag and one behind the last. -/
def texts : Markup → List Bytes
  | nil => [[]]
  | text value next => inFront value next.texts
  | var _ next | paste _ _ next => [] :: next.texts
  | branch _ _ body next | loop _ body next => [] :: (body.texts ++ next.texts)
  | either _ _ body other next => [] :: (body.texts ++ (other.texts ++ next.texts))

/-- The source has the tags of the tree, spelled in whatever way, and its texts between them. -/
def Spells (tree : Markup) (source : Bytes) : Prop :=
  (Tag.scan source ⟨0, source.length⟩).map Tag.mark = tree.marks ∧
    Tag.texts source 0 (Tag.scan source ⟨0, source.length⟩) = tree.texts

/-- The span of the tag of an index. -/
def spanAt (source : Bytes) (i : Nat) : Span :=
  ((Tag.scan source ⟨0, source.length⟩)[i]?.map (·.span)).getD default

/-- Whether a conditional block of the kind has an else, at whatever depth. -/
def divides (negated : Bool) : Markup → Bool
  | nil => false
  | text _ next | var _ next | paste _ _ next => next.divides negated
  | branch _ _ body next | loop _ body next => body.divides negated || next.divides negated
  | either kind _ body other next =>
    kind == negated || body.divides negated || other.divides negated || next.divides negated

/-- Whether no conditional block with an else stands, at whatever depth, inside one of the other
kind. -/
def plain : Markup → Bool
  | nil => true
  | text _ next | var _ next | paste _ _ next => next.plain
  | branch negated _ body next => !body.divides (!negated) && body.plain && next.plain
  | either negated _ body other next =>
    !body.divides (!negated) && !other.divides (!negated) && body.plain && other.plain && next.plain
  | loop _ body next => body.plain && next.plain

/-! ## What a tree means -/

/-- A name is true if its variable is neither empty nor `0`, or if there is no such variable but a
loop with a child. -/
def truth (b : Bindings) (name : String) : Bool :=
  match b.get? name, b.loop? name with
  | some value, _ => decide (value ≠ [] ∧ value ≠ [48])
  | none, some (_ :: _) => true
  | none, _ => false

section Eval

variable (r : Renderer) (files : Files) (path : Option Path) (place : Nat → Span)

/-- Goes one level down for the tag of index `i`, where a level is left. -/
def descend (levels i : Nat) (f : Nat → Except RenderFault Bytes) : Except RenderFault Bytes :=
  match levels with
  | 0 => .error (.tooDeep r.maxDepth (place i) path)
  | levels + 1 => f levels

/-- The rendering of a file, and nothing where it cannot be read. -/
def pasted (levels : Nat) (name : String) (b : Bindings) : Except RenderFault Bytes :=
  match files (r.resolve name) with
  | .error _ => .ok []
  | .ok source =>
    (r.pageAt files levels ⟨source, some (r.resolve name)⟩ b).result.map Chain.bytes

/-- What the tree means in a scope, when so many further levels may be opened and its first tag has
the index `i`. The indices serve to tell at which tag there is no level left. -/
def eval : (levels i : Nat) → Markup → Bindings → Except RenderFault Bytes
  | _, _, nil, _ => .ok []
  | levels, i, text value next, b => do
    let more ← eval levels i next b
    return value ++ more
  | levels, i, var name next, b => do
    let more ← eval levels (i + 1) next b
    return (b.get? name).getD [] ++ more
  | levels, i, paste _ name next, b => do
    let out ← descend r path place levels i fun levels => pasted r files levels name b
    let more ← eval levels (i + 1) next b
    return out ++ more
  | levels, i, branch negated name body next, b => do
    let out ← (if truth b name != negated then
        descend r path place levels i fun levels => eval levels (i + 1) body b
      else .ok [])
    let more ← eval levels (i + body.marks.length + 2) next b
    return out ++ more
  | levels, i, either negated name body other next, b => do
    let out ← descend r path place levels i fun levels =>
      if truth b name != negated then eval levels (i + 1) body b
      else eval levels (i + body.marks.length + 2) other b
    let more ← eval levels (i + body.marks.length + other.marks.length + 3) next b
    return out ++ more
  | levels, i, loop name body next, b => do
    let children := (b.loop? name).getD []
    let out ← (if children.isEmpty then .ok []
      else descend r path place levels i fun levels => do
        let outs ← children.mapM fun child => eval levels (i + 1) body child
        return outs.flatten)
    let more ← eval levels (i + body.marks.length + 2) next b
    return out ++ more

end Eval

end Markup

end Stencil
