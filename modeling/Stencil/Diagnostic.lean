import Stencil.Render.Fault

/-!
# Diagnostics

A fault with the place where it is: the file, and the line and column in the file's text.
-/

namespace Stencil

/-- A line and a column, both counted from one. -/
structure Place where
  line : Nat
  column : Nat
  deriving DecidableEq, Repr

namespace Place

/-- The place so many octets behind this one, over the characters that follow. A character counts
when all of its octets do. -/
def advance : Place → Nat → List Char → Place
  | p, _, [] => p
  | p, offset, c :: cs =>
    if offset < c.utf8Size then p
    else
      let next : Place := if c = '\n' then ⟨p.line + 1, 1⟩ else ⟨p.line, p.column + 1⟩
      advance next (offset - c.utf8Size) cs

/-- The place at an offset into a text. -/
def ofOffset (text : String) (offset : Nat) : Place := advance ⟨1, 1⟩ offset text.toList

end Place

/-- A fault and its place. -/
structure Diagnostic where
  message : String
  file : String
  place : Place
  notes : List String
  deriving DecidableEq, Repr

namespace Diagnostic

/-- The diagnostic of a fault at an offset of a file. The offset is looked up in the file's text,
in which ill-formed octets are replaced. -/
def ofFile (message : String) (path : Path) (source : Bytes) (offset : Nat) (notes : List String) :
    Diagnostic :=
  ⟨message, path.text, .ofOffset (Utf8.lossy source) offset, notes⟩

/-- The diagnostic of a block's fault. -/
def ofBlockFault (path : Path) (source : Bytes) (e : BlockFault) : Diagnostic :=
  ofFile e.message path source e.span.start e.notes

/-- The diagnostic as lines, the last of which is empty. -/
def lines (d : Diagnostic) : List String :=
  ["error: " ++ d.message, s!"┌─ {d.file}:{d.place.line}:{d.place.column}"]
    ++ d.notes.map ("= " ++ ·) ++ [""]

end Diagnostic

/-- The lines that report why a rendering stopped: a diagnostic where the file that the fault is
about can be read, and one line otherwise. -/
def RenderFault.report (files : Files) (e : RenderFault) : List String :=
  let plain := ["error: " ++ e.message]
  match e, e.path? with
  | .unreadable .., _ | _, none => plain
  | e, some path =>
    match files path with
    | .error _ => plain
    | .ok source =>
      match e, e.span? with
      | .blocks faults _, _ => faults.flatMap fun f => (Diagnostic.ofBlockFault path source f).lines
      | e, some span =>
        if span.stop ≤ source.length then
          (Diagnostic.ofFile e.message path source span.start []).lines
        else [s!"error: {path.text}: {e.message}"]
      | _, none => [s!"error: {path.text}: {e.message}"]

end Stencil
