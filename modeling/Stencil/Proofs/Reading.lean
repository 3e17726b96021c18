import Stencil.Proofs.Regions
import Stencil.Render

/-!
# Rendering from one reading of a page

A page is read once, and its tags and links are kept. A region of the tags, given by indices, is
then rendered from these alone; the page is only looked at for the text between the tags. What a
tag shows is again a region, or a file, which is read once as well. Before a region is gone into,
each block that opens there has to close there too.
-/

namespace Stencil

/-- Renders a page when so many further levels may be opened. -/
def Renderer.pageAt (r : Renderer) (files : Files) (levels : Nat) (p : Page) (b : Bindings) :
    Rendering Chain := do
  let t ← p.parseAll
  r.template files levels p t b

/-- A page with the tags of the one time that it was read. -/
structure Reading where
  page : Page
  tags : List LinkedTag

namespace Reading

/-- Reads a page. -/
def ofPage (p : Page) : Except RenderFault Reading :=
  match Template.parse p.source with
  | .ok t => .ok ⟨p, t.tags⟩
  | .error es => .error (.blocks es p.path)

/-- The region of all tags. -/
def whole (R : Reading) : Region := ⟨0, R.tags.length⟩

/-- The offset behind the tag in front of an index. -/
def behind (R : Reading) (i : Nat) : Nat := Tag.endOf 0 ((R.tags.take i).map (·.toTag))

/-- The offset at which the tag of an index begins, or at which the page ends. -/
def before (R : Reading) (i : Nat) : Nat :=
  Tag.startOf R.page.source.length ((R.tags.drop i).map (·.toTag))

/-- The text in front of the tag of an index. -/
def text (R : Reading) (i : Nat) : Bytes := R.page.source.slice (R.behind i) (R.before i)

/-- A region can be gone into if no block that opens there closes outside. -/
def enter (R : Reading) (g : Region) : Except RenderFault Unit :=
  match g.dangling R.tags with
  | [] => .ok ()
  | e :: es => .error (.blocks (e :: es) R.page.path)

/-- How a region is rendered one level deeper. -/
abbrev Inner := Reading → Region → Bindings → Except RenderFault Chain

/-- The outputs for each scope, joined. -/
def rounds (f : Bindings → Except RenderFault Chain) : List Bindings → Except RenderFault Chain
  | [] => .ok ∅
  | b :: rest => do
    let out ← f b
    let more ← rounds f rest
    return out ++ more

section Interpreter

variable (r : Renderer) (files : Files) (inner : Option Inner) (R : Reading)

/-- Renders a body of the tag for each scope. -/
def body (t : LinkedTag) (g : Region) (scopes : List Bindings) : Except RenderFault Chain :=
  match inner with
  | none => .error (.tooDeep r.maxDepth t.span R.page.path)
  | some inner => do
    R.enter g
    rounds (inner R g) scopes

/-- Renders the file that the tag names, and nothing where it cannot be read. -/
def file (t : LinkedTag) (b : Bindings) : Except RenderFault Chain :=
  match inner with
  | none => .error (.tooDeep r.maxDepth t.span R.page.path)
  | some inner =>
    match files (r.resolve t.nameOrEmpty) with
    | .error _ => .ok ∅
    | .ok source => do
      let R ← ofPage ⟨source, some (r.resolve t.nameOrEmpty)⟩
      inner R R.whole b

/-- The region that a conditional block at index `i` shows, if it shows one. -/
def branch (i : Nat) (link : Link) (holds : Bool) : Option Region :=
  match holds, link.divider with
  | true, some d => some ⟨i + 1, d⟩
  | true, none => some ⟨i + 1, link.closing⟩
  | false, some d => some ⟨d + 1, link.closing⟩
  | false, none => none

/-- What the block of an opening tag gives, and the index of its closing tag. -/
def block (t : LinkedTag) (shown : Link → Except RenderFault Chain) :
    Except RenderFault (Chain × Nat) :=
  match t.link with
  | none => .error (.blocks [.unclosed t.kind t.span] R.page.path)
  | some link => do
    let out ← shown link
    return (out, link.closing)

/-- What a conditional block at index `i` shows. -/
def conditional (b : Bindings) (i : Nat) (t : LinkedTag) (link : Link) : Except RenderFault Chain :=
  (branch i link (b.condition t.nameOrEmpty != (t.kind == .unlessBlock))).elim (.ok ∅) fun g =>
    body r inner R t g [b]

/-- What a loop at index `i` shows. -/
def loop (b : Bindings) (i : Nat) (t : LinkedTag) (link : Link) : Except RenderFault Chain :=
  let children := (b.loop? t.nameOrEmpty).getD []
  if children.isEmpty then .ok ∅ else body r inner R t ⟨i + 1, link.closing⟩ children

/-- What the tag at index `i` gives, and the index of the last tag that it takes up. -/
def tag (b : Bindings) (i : Nat) (t : LinkedTag) : Except RenderFault (Chain × Nat) :=
  if t.closes then .error (.strayClose t.kind t.span R.page.path)
  else
    match t.kind with
    | .elseMark => .error (.strayElse t.span R.page.path)
    | .var => .ok (.ofBytes ((b.get? t.nameOrEmpty).getD []), i)
    | .incl | .includes => do
      let out ← file r files inner R t b
      return (out, i)
    | .ifBlock | .unlessBlock => block R t (conditional r inner R b i t)
    | .loopBlock => block R t (loop r inner R b i t)

/-- Renders tags, the first of which has the index `i`. So many of them as `taken` says have been
taken up already. -/
def walk (b : Bindings) : (i taken : Nat) → List LinkedTag → Except RenderFault Chain
  | i, _, [] => .ok (.ofBytes (R.text i))
  | i, taken + 1, _ :: rest => walk b (i + 1) taken rest
  | i, 0, t :: rest => do
    let (out, last) ← tag r files inner R b i t
    let more ← walk b (i + 1) (last - i) rest
    return .ofBytes (R.text i) ++ out ++ more

end Interpreter

/-- Renders a region when so many further levels may be opened. -/
def interpret (r : Renderer) (files : Files) : (levels : Nat) → Inner
  | 0, R, g, b => R.walk r files none b g.first 0 (g.of R.tags)
  | levels + 1, R, g, b =>
    R.walk r files (some (interpret r files levels)) b g.first 0 (g.of R.tags)

/-- The way one level down. -/
def innerAt (r : Renderer) (files : Files) : (levels : Nat) → Option Inner
  | 0 => none
  | levels + 1 => some (interpret r files levels)

theorem interpret_eq_walk (r : Renderer) (files : Files) (levels : Nat) (R : Reading) (g : Region)
    (b : Bindings) : interpret r files levels R g b =
      R.walk r files (innerAt r files levels) b g.first 0 (g.of R.tags) := by
  cases levels <;> rfl

/-- The template that the page is read as. -/
def template (R : Reading) : Template := ⟨⟨0, R.page.source.length⟩, R.tags⟩

/-- The tags are those that reading the page gives. -/
def Parsed (R : Reading) : Prop := Template.parse R.page.source = .ok R.template

variable {R : Reading} {i j : Nat} {t : LinkedTag}

/-- Tags that have been taken up are passed over. -/
theorem walk_drop {r : Renderer} {files : Files} {inner : Option Inner} {b : Bindings} :
    ∀ (i taken : Nat) (us : List LinkedTag), taken ≤ us.length →
      R.walk r files inner b i taken us = R.walk r files inner b (i + taken) 0 (us.drop taken)
  | _, 0, _, _ => rfl
  | i, taken + 1, _ :: us, h => by
    rw [walk, walk_drop (i + 1) taken us (Nat.le_of_succ_le_succ h), List.drop_succ_cons,
      Nat.add_right_comm, Nat.add_assoc]

theorem parsed_of_parse {p : Page} {t : Template} (h : Template.parse p.source = .ok t) :
    Parsed ⟨p, t.tags⟩ ∧ template ⟨p, t.tags⟩ = t := by
  have ht : template ⟨p, t.tags⟩ = t := by
    rw [template, ← (Template.ofTags_eq_ok h).1]
  exact ⟨h.trans (congrArg Except.ok ht.symm), ht⟩

namespace Parsed

theorem tags_eq (h : R.Parsed) :
    R.tags = LinkedTag.ofTags (Tag.scan R.page.source ⟨0, R.page.source.length⟩) :=
  (Template.ofTags_eq_ok h).2.1

theorem map_toTag (h : R.Parsed) :
    R.tags.map (·.toTag) = Tag.scan R.page.source ⟨0, R.page.source.length⟩ := by
  rw [h.tags_eq, LinkedTag.map_toTag_ofTags]

/-- Links lead on, to tags of the same reading, the else before the closing tag. -/
theorem link_bounds (h : R.Parsed) (ht : R.tags[i]? = some t) {link : Link}
    (hl : t.link = some link) : i < link.closing ∧ link.closing < R.tags.length ∧
      ∀ d, link.divider = some d → i < d ∧ d < link.closing := by
  rw [h.tags_eq] at ht
  rw [← List.length_map (·.toTag), h.map_toTag]
  exact LinkedTag.link_bounds ht hl

end Parsed

/-! ## Where the tags lie -/

theorem behind_succ (h : R.tags[i]? = some t) : R.behind (i + 1) = t.span.stop := by
  rw [behind, List.take_add_one, h]
  simp [Tag.endOf_append_singleton]

theorem before_eq (h : R.tags[i]? = some t) : R.before i = t.span.start := by
  obtain ⟨hi, rfl⟩ := List.getElem?_eq_some_iff.1 h
  rw [before, List.drop_eq_getElem_cons hi]
  rfl

theorem span_eq (h : R.tags[i]? = some t) : t.span = ⟨R.before i, R.behind (i + 1)⟩ := by
  rw [before_eq h, behind_succ h]

/-- The offset behind the first tags tells them from the others. -/
theorem start_lt_behind_iff (h : R.Parsed) (hi : i ≤ R.tags.length) (ht : R.tags[j]? = some t) :
    t.span.start < R.behind i ↔ j < i := by
  have hscan := h.map_toTag
  have hord : R.tags.Pairwise fun t u => t.span.stop ≤ u.span.start := by
    have hpair := Tag.scan_pairwise (le_refl R.page.source.length) (Nat.zero_le _)
    rwa [← hscan, List.pairwise_map] at hpair
  have hspan : ∀ u ∈ R.tags, u.span.start < u.span.stop := by
    intro u hu
    have hmem : u.toTag ∈ Tag.scan R.page.source ⟨0, R.page.source.length⟩ :=
      hscan ▸ List.mem_map_of_mem hu
    exact (Tag.scan_bounds le_rfl (Nat.zero_le _) hmem).2.1
  obtain ⟨hj, rfl⟩ := List.getElem?_eq_some_iff.1 ht
  rcases i with _ | i
  · simp [behind, Tag.endOf]
  · rw [behind_succ (List.getElem?_eq_getElem hi)]
    have hpair := List.pairwise_iff_getElem.1 hord
    rcases Nat.lt_trichotomy j i with hlt | rfl | hgt
    · have := hspan _ (List.getElem_mem hj)
      have := hspan _ (List.getElem_mem hi)
      have := hpair j i hj hi hlt
      omega
    · have := hspan _ (List.getElem_mem hj)
      omega
    · have := hpair i j hi hj hgt
      omega

/-- The whole page is the stretch of all its tags. -/
theorem cut_whole (R : Reading) : R.template.cut R.whole = R.template := by
  have hrel : (fun t : LinkedTag => t.relative 0) = id := by
    funext t
    obtain ⟨t, _ | ⟨c, _ | d⟩⟩ := t <;> rfl
  simp [Template.cut, template, whole, Region.of, hrel, Tag.endOf, Tag.startOf]

/-- Every block of the page closes in it. -/
theorem dangling_whole (h : R.Parsed) : R.whole.dangling R.tags = [] := by
  rw [Region.dangling, List.filterMap_eq_nil_iff]
  intro t ht
  rw [Region.of, whole, List.take_length, List.drop_zero] at ht
  obtain ⟨i, hi, rfl⟩ := List.mem_iff_getElem.1 ht
  rcases hl : R.tags[i].link with _ | link
  · rfl
  · obtain ⟨-, hlt, -⟩ := h.link_bounds (List.getElem?_eq_getElem hi) hl
    exact if_pos ⟨Nat.zero_le _, hlt⟩

end Reading

end Stencil
