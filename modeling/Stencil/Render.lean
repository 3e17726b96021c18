import Stencil.Bindings
import Stencil.Chain
import Stencil.Render.Rendering

/-!
# Rendering

A template is walked from tag to tag. The text before a tag is copied, and the tag is dealt with:
it gives a value, or it has its body rendered for every scope that the body has (the current one
for a branch, each child for a loop), or another file. The body of a block is read anew, as a
template of its own, and tags inside it are passed over.

Bodies and files are one level deeper than the tag that asks for them. The recursion goes down the
levels that are left, so that it ends even where files include themselves.
-/

namespace Stencil

/-- A source and the file that it was read from. -/
structure Page where
  source : Bytes
  path : Option Path
  deriving DecidableEq, Repr

/-- How templates are rendered. -/
structure Renderer where
  /-- The directory in which relative names of files are looked up. -/
  baseDir : Path
  /-- How many levels may be open. -/
  maxDepth : Nat
  deriving DecidableEq, Repr

/-- Files are looked up in the current directory, and 64 levels may be open. -/
def Renderer.standard : Renderer := ⟨Path.ofString ".", 64⟩

/-- What a tag asks for. -/
inductive Action where
  /-- The octets are put out. -/
  | emit (value : Bytes)
  /-- The body is rendered once for each scope. -/
  | each (body : Span) (scopes : List Bindings)
  /-- The file of this name is rendered. -/
  | paste (name : String)

/-- How a template one level deeper is rendered. -/
abbrev Deeper := Page → Template → Bindings → Rendering Chain

namespace Page

/-- Reads a stretch of the page as a template. -/
def parse (page : Page) (range : Span) : Rendering Template :=
  .ofResult ((Template.parseRange page.source range).mapError (.blocks · page.path))

/-- Reads the whole page as a template. -/
def parseAll (page : Page) : Rendering Template := page.parse ⟨0, page.source.length⟩

/-- The closing tag of a block and its else. -/
def partners (page : Page) (t : Template) (tag : LinkedTag) :
    Rendering (LinkedTag × Option LinkedTag) :=
  let found := tag.link.bind fun link =>
    (t.tags[link.closing]?).map (·, link.divider.bind (t.tags[·]?))
  match found with
  | some found => pure found
  | none => .fail (.blocks [.unclosed tag.kind tag.span] page.path)

/-- The body that a conditional block shows, if it shows one. -/
def branch (tag closing : LinkedTag) (divider : Option LinkedTag) (holds : Bool) : Option Span :=
  match holds, divider with
  | true, some divider => some ⟨tag.span.stop, divider.span.start⟩
  | true, none => some ⟨tag.span.stop, closing.span.start⟩
  | false, some divider => some ⟨divider.span.stop, closing.span.start⟩
  | false, none => none

/-- What a tag asks for, and the offset at which the walk goes on. -/
def dispatch (page : Page) (t : Template) (tag : LinkedTag) (b : Bindings) :
    Rendering (Action × Nat) := do
  .note (.visit tag.toTag)
  if tag.closes then .fail (.strayClose tag.kind tag.span page.path)
  else
    match tag.kind with
    | .var => return (.emit ((b.get? tag.nameOrEmpty).getD []), tag.span.stop)
    | .incl | .includes => return (.paste tag.nameOrEmpty, tag.span.stop)
    | .ifBlock | .unlessBlock => do
      let (closing, divider) ← page.partners t tag
      let holds := b.condition tag.nameOrEmpty != (tag.kind == .unlessBlock)
      match branch tag closing divider holds with
      | some body => return (.each body [b], closing.span.stop)
      | none => return (.emit [], closing.span.stop)
    | .loopBlock => do
      let (closing, _) ← page.partners t tag
      match b.loop? tag.nameOrEmpty with
      | some (child :: children) => do
        .note (.loop tag.nameOrEmpty (children.length + 1))
        return (.each ⟨tag.span.stop, closing.span.start⟩ (child :: children), closing.span.stop)
      | _ => do
        .note (.emptyLoop tag.nameOrEmpty)
        return (.emit [], closing.span.stop)
    | .elseMark => .fail (.strayElse tag.span page.path)

end Page

/-- The template is rendered for each scope, and the outputs are joined. -/
def Deeper.forEach (deeper : Deeper) (page : Page) (t : Template) :
    List Bindings → Rendering Chain
  | [] => pure ∅
  | b :: rest => do
    let out ← deeper page t b
    let more ← forEach deeper page t rest
    return out ++ more

namespace Renderer

/-- The path that a name in a template stands for. -/
def resolve (r : Renderer) (name : String) : Path := r.baseDir.join (.ofString name)

/-- The way one level down, closed when no level is left. -/
def descend (r : Renderer) (page : Page) (tag : Tag) : Option Deeper → Rendering Deeper
  | some deeper => pure deeper
  | none => .fail (.tooDeep r.maxDepth tag.span page.path)

/-- Does what a tag asks for. The level is checked before a body or a file is read. -/
def perform (r : Renderer) (files : Files) (deeper : Option Deeper) (page : Page) (tag : Tag)
    (b : Bindings) : Action → Rendering Chain
  | .emit value => pure (.ofBytes value)
  | .each body scopes => do
    let deeper ← r.descend page tag deeper
    let t ← page.parse body
    deeper.forEach page t scopes
  | .paste name => do
    let deeper ← r.descend page tag deeper
    let path := r.resolve name
    match files path with
    | .ok source => do
      .note (.includedFile path source.length)
      let page : Page := ⟨source, some path⟩
      let t ← page.parseAll
      deeper page t b
    | .error why => do
      .note (.missingFile path why)
      return ∅

/-- Walks the tags from offset `cursor` on, passing over those that begin before it. -/
def walk (r : Renderer) (files : Files) (deeper : Option Deeper) (page : Page) (t : Template)
    (b : Bindings) : (cursor : Nat) → List LinkedTag → Rendering Chain
  | cursor, [] => pure (.ofBytes (page.source.slice cursor t.range.stop))
  | cursor, tag :: rest =>
    if tag.span.start < cursor then walk r files deeper page t b cursor rest
    else do
      let (action, next) ← page.dispatch t tag b
      let out ← r.perform files deeper page tag.toTag b action
      let more ← walk r files deeper page t b next rest
      return .ofBytes (page.source.slice cursor tag.span.start) ++ out ++ more

/-- Renders a template when so many further levels may be opened. -/
def template (r : Renderer) (files : Files) : (levels : Nat) → Deeper
  | 0, page, t, b => r.walk files none page t b t.range.start t.tags
  | levels + 1, page, t, b =>
    r.walk files (some (template r files levels)) page t b t.range.start t.tags

/-- Renders a page. -/
def page (r : Renderer) (files : Files) (p : Page) (b : Bindings) : Rendering Chain := do
  let t ← p.parseAll
  r.template files r.maxDepth p t b

/-- Renders a source that is in no file. -/
def render (r : Renderer) (files : Files) (source : Bytes) (b : Bindings) : Rendering Chain :=
  r.page files ⟨source, none⟩ b

/-- Renders the file at a path, which is taken as it is. -/
def renderFile (r : Renderer) (files : Files) (path : Path) (b : Bindings) : Rendering Chain :=
  match files path with
  | .ok source => r.page files ⟨source, some path⟩ b
  | .error why => .fail (.unreadable path why)

end Renderer

end Stencil
