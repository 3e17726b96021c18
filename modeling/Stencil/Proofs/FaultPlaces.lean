import Stencil.Proofs.Regions
import Stencil.Render

/-!
# A fault points at tags of the file that it names

Whatever stops a rendering, be it found in a body that was read anew or in a file that was included
by another one, it points at tags that reading the whole file finds, and the file is the one that
was rendered or one that the rendering has read (`fault_points_at_tags`).

A body lies between two tags of the template that it is a body of. So at all depths the tags of a
template are neighbouring tags of the whole page (`Page.Stretch`).
-/

namespace Stencil

/-- The tags of the whole page. -/
def Page.allTags (p : Page) : List Tag := Tag.scan p.source ⟨0, p.source.length⟩

/-- The pages that a rendering of a page has read when it has noted so much: the page itself, and
files that an include tag of a page that was read names. -/
inductive Renderer.Reads (r : Renderer) (files : Files) (events : List Event) (top : Page) :
    Page → Prop
  | top : Reads r files events top top
  | included {p : Page} {t : Tag} {source : Bytes} (hp : Reads r files events top p)
    (ht : t ∈ p.allTags) (hk : t.closes = false ∧ (t.kind = .incl ∨ t.kind = .includes))
    (hf : files (r.resolve t.nameOrEmpty) = .ok source)
    (he : .includedFile (r.resolve t.nameOrEmpty) source.length ∈ events) :
    Reads r files events top ⟨source, some (r.resolve t.nameOrEmpty)⟩

/-- The fault is one of tags in the list: an opening block tag, or such a tag with two elses behind
it. -/
def BlockFault.PointsInto (tags : List Tag) : BlockFault → Prop
  | .unclosed kind opener => ∃ o ∈ tags, o.opensBlock ∧ o.kind = kind ∧ o.span = opener
  | .secondElse kind opener first second =>
    ∃ o x y, [o, x, y].Sublist tags ∧ o.opensBlock ∧ o.kind = kind ∧ o.span = opener ∧
      x.kind = .elseMark ∧ x.span = first ∧ y.kind = .elseMark ∧ y.span = second

namespace RenderFault

/-- All tags that the fault points at, by their spans. -/
def spans : RenderFault → List Span
  | .blocks faults _ => faults.flatMap fun f => f.span :: f.related.map (·.1)
  | .strayElse span _ => [span]
  | .strayClose _ span _ => [span]
  | .unreadable .. => []
  | .tooDeep _ span _ => [span]

/-- The fault points at tags of the list, and they are of the kind that can be at fault so. -/
def PointsInto (tags : List Tag) : RenderFault → Prop
  | .blocks faults _ => faults ≠ [] ∧ ∀ f ∈ faults, f.PointsInto tags
  | .strayElse span _ => ∃ t ∈ tags, t.kind = .elseMark ∧ t.span = span
  | .strayClose kind span _ => ∃ t ∈ tags, t.closes ∧ t.kind = kind ∧ t.span = span
  | .unreadable .. => False
  | .tooDeep _ span _ =>
    ∃ t ∈ tags, t.closes = false ∧ (t.kind.isBlock ∨ t.kind = .incl ∨ t.kind = .includes) ∧
      t.span = span

/-- The fault is in the page: it names the page's file, and points at tags of the page. -/
structure IsIn (p : Page) (e : RenderFault) : Prop where
  path : e.path? = p.path
  points : e.PointsInto p.allTags

end RenderFault

/-! ## Faults of blocks -/

namespace BlockFault

variable {f : BlockFault} {tags tags' : List Tag}

theorem PointsInto.mono (h : f.PointsInto tags) (hs : tags.Sublist tags') : f.PointsInto tags' := by
  cases f with
  | unclosed kind opener =>
    obtain ⟨o, ho, hrest⟩ := h
    exact ⟨o, hs.subset ho, hrest⟩
  | secondElse kind opener first second =>
    obtain ⟨o, x, y, hsub, hrest⟩ := h
    exact ⟨o, x, y, hsub.trans hs, hrest⟩

theorem PointsInto.span_mem (h : f.PointsInto tags) {s : Span}
    (hs : s ∈ f.span :: f.related.map (·.1)) : ∃ t ∈ tags, t.span = s := by
  cases f with
  | unclosed kind opener =>
    obtain ⟨o, ho, -, -, rfl⟩ := h
    obtain rfl : s = o.span := by simpa [BlockFault.span, BlockFault.related] using hs
    exact ⟨o, ho, rfl⟩
  | secondElse kind opener first second =>
    obtain ⟨o, x, y, hsub, -, -, rfl, -, rfl, -, rfl⟩ := h
    have hmem : ∀ t ∈ [o, x, y], t ∈ tags := fun t ht => hsub.subset ht
    simp only [List.forall_mem_cons] at hmem
    simp only [BlockFault.span, BlockFault.related, List.map_cons, List.map_nil, List.mem_cons,
      List.not_mem_nil, or_false] at hs
    rcases hs with rfl | rfl | rfl
    · exact ⟨y, hmem.2.2.1, rfl⟩
    · exact ⟨x, hmem.2.1, rfl⟩
    · exact ⟨o, hmem.1, rfl⟩

end BlockFault

namespace Tag

variable {o : Tag} {f : BlockFault}

/-- A search that fails has met the end of the tags, or a second else. -/
theorem findLink_error : ∀ {i d : Nat} {divider : Option (Nat × Span)} {rest : List Tag},
    o.findLink i d divider rest = .error f →
      f = .unclosed o.kind o.span ∨
      (∃ n first, ∃ y ∈ rest, divider = some (n, first) ∧ y.kind = .elseMark ∧
        f = .secondElse o.kind o.span first y.span) ∨
      ∃ x y, [x, y].Sublist rest ∧ x.kind = .elseMark ∧ y.kind = .elseMark ∧
        f = .secondElse o.kind o.span x.span y.span
  | _, _, _, [], h => .inl (Except.error.inj h).symm
  | i, d, divider, t :: rest, h => by
    simp only [findLink] at h
    split_ifs at h with h0 h1
    · rcases divider with _ | ⟨n, first⟩
      · rcases findLink_error h with he | ⟨n, first, y, hy, hd, hk, he⟩ | ⟨x, y, hs, hx, hy, he⟩
        · exact .inl he
        · obtain ⟨rfl, rfl⟩ := Prod.mk.inj (Option.some.inj hd)
          exact .inr (.inr ⟨t, y, by simpa using hy, h1.2.1, hk, he⟩)
        · exact .inr (.inr ⟨x, y, hs.cons t, hx, hy, he⟩)
      · exact .inr (.inl ⟨n, first, t, by simp, rfl, h1.2.1, (Except.error.inj h).symm⟩)
    · rcases findLink_error h with he | ⟨n, first, y, hy, hd, hk, he⟩ | ⟨x, y, hs, hx, hy, he⟩
      · exact .inl he
      · exact .inr (.inl ⟨n, first, y, List.mem_cons_of_mem t hy, hd, hk, he⟩)
      · exact .inr (.inr ⟨x, y, hs.cons t, hx, hy, he⟩)

theorem blockFaults_pointsInto {tags : List Tag} (hf : f ∈ blockFaults tags) :
    f.PointsInto tags := by
  obtain ⟨found, hfound, hf⟩ := List.mem_filterMap.1 hf
  obtain ⟨i, hi⟩ := List.mem_iff_getElem?.1 hfound
  rw [getElem?_links, Option.map_eq_some_iff] at hi
  obtain ⟨o, ho, rfl⟩ := hi
  obtain ⟨hlt, rfl⟩ := List.getElem?_eq_some_iff.1 ho
  have hsub : (tags[i] :: tags.drop (i + 1)).Sublist tags := by
    rw [← List.drop_eq_getElem_cons hlt]
    exact List.drop_sublist i tags
  split_ifs at hf with hopens
  rcases hl : tags[i].findLink (i + 1) 1 none (tags.drop (i + 1)) with e | link
  · rw [hl] at hf
    obtain rfl := Option.some.inj hf
    rcases findLink_error hl with rfl | ⟨n, first, y, hy, hd, -⟩ | ⟨x, y, hs, hx, hy, rfl⟩
    · exact ⟨_, List.getElem_mem hlt, hopens, rfl, rfl⟩
    · cases hd
    · exact ⟨_, x, y, (hs.cons_cons _).trans hsub, hopens, rfl, rfl, hx, rfl, hy, rfl⟩
  · rw [hl] at hf
    cases hf

end Tag

/-! ## Stretches of a page -/

namespace Page

variable {p : Page} {range : Span} {t : Template} {tag : LinkedTag}

/-- What is found in a stretch of the page are neighbouring tags of the page. -/
def Inside (p : Page) (range : Span) : Prop :=
  ∃ pre post, p.allTags = pre ++ Tag.scan p.source range ++ post

theorem inside_whole (p : Page) : p.Inside ⟨0, p.source.length⟩ := ⟨[], [], by simp [allTags]⟩

/-- The template was read in a stretch of the page. -/
structure Stretch (p : Page) (t : Template) : Prop where
  inside : p.Inside t.range
  tags : t.tags = LinkedTag.ofTags (Tag.scan p.source t.range)

theorem Stretch.map_toTag (h : p.Stretch t) :
    t.tags.map (·.toTag) = Tag.scan p.source t.range := by
  rw [h.tags, LinkedTag.map_toTag_ofTags]

theorem Stretch.mem_allTags (h : p.Stretch t) (ht : tag ∈ t.tags) : tag.toTag ∈ p.allTags := by
  obtain ⟨pre, post, hall⟩ := h.inside
  rw [hall, ← h.map_toTag]
  simp only [List.mem_append, List.mem_map]
  exact .inl (.inr ⟨tag, ht, rfl⟩)

/-- Reading a stretch gives a template of the stretch, or faults of tags in it. -/
theorem parse_spec (hr : p.Inside range) :
    match (p.parse range).result with
    | .ok t => p.Stretch t
    | .error e => e.IsIn p := by
  simp only [parse, Rendering.result_ofResult, Template.parseRange, Template.ofTags]
  rcases hf : Tag.blockFaults (Tag.scan p.source range) with _ | ⟨f, fs⟩
  · exact ⟨hr, rfl⟩
  · refine ⟨rfl, List.cons_ne_nil f fs, fun g hg => ?_⟩
    obtain ⟨pre, post, hall⟩ := hr
    refine (Tag.blockFaults_pointsInto (hf ▸ hg)).mono ?_
    rw [hall, List.append_assoc]
    exact (List.sublist_append_left _ post).trans (List.sublist_append_right pre _)

theorem inside_between {xs mid ys : List Tag} {u v : Tag}
    (h : p.allTags = xs ++ u :: (mid ++ v :: ys)) : p.Inside ⟨u.span.stop, v.span.start⟩ := by
  have hcut : Tag.scan p.source ⟨0, p.source.length⟩ = xs ++ [u] ++ mid ++ v :: ys := by
    rw [← allTags, h]
    simp
  have hscan := Tag.scan_between le_rfl (Nat.zero_le _) hcut
  rw [Tag.endOf_append_singleton,
    show Tag.startOf p.source.length (v :: ys) = v.span.start from rfl]
    at hscan
  exact ⟨xs ++ [u], v :: ys, by rw [hscan, allTags, hcut]⟩

theorem Stretch.between (h : p.Stretch t) {i j : Nat} (hij : i < j) {u v : LinkedTag}
    (hu : t.tags[i]? = some u) (hv : t.tags[j]? = some v) :
    p.Inside ⟨u.span.stop, v.span.start⟩ := by
  obtain ⟨pre, post, hall⟩ := h.inside
  obtain ⟨hj, rfl⟩ := List.getElem?_eq_some_iff.1 hv
  obtain ⟨hi, rfl⟩ := List.getElem?_eq_some_iff.1 hu
  have hbehind : t.tags.drop (i + 1) = (t.tags.drop (i + 1)).take (j - (i + 1))
      ++ t.tags[j] :: t.tags.drop (j + 1) := by
    conv_lhs => rw [← List.take_append_drop (j - (i + 1)) (t.tags.drop (i + 1))]
    rw [List.drop_drop, Nat.add_sub_cancel' hij, List.drop_eq_getElem_cons hj]
  have hsplit : t.tags = t.tags.take i ++ t.tags[i] :: ((t.tags.drop (i + 1)).take (j - (i + 1))
      ++ t.tags[j] :: t.tags.drop (j + 1)) := by
    rw [← hbehind, ← List.drop_eq_getElem_cons hi, List.take_append_drop]
  rw [← h.map_toTag, hsplit] at hall
  simp only [List.map_append, List.map_cons, List.append_assoc, List.cons_append] at hall
  rw [← List.append_assoc] at hall
  exact inside_between hall

/-! ## What a tag asks for -/

/-- The partners of a tag stand behind it, the else before the closing tag. -/
theorem partners_spec (h : p.Stretch t) {i : Nat} (ht : t.tags[i]? = some tag) :
    match (p.partners t tag).result with
    | .ok (closing, divider) => ∃ j, i < j ∧ t.tags[j]? = some closing ∧
        ∀ u, divider = some u → ∃ d, i < d ∧ d < j ∧ t.tags[d]? = some u
    | .error e => e = .blocks [.unclosed tag.kind tag.span] p.path := by
  unfold partners
  rcases hl : tag.link with _ | link
  · rfl
  · simp only [Option.bind_some]
    rcases hc : t.tags[link.closing]? with _ | closing
    · rfl
    · rw [h.tags] at ht
      obtain ⟨hlt, -, hdiv⟩ := LinkedTag.link_bounds ht hl
      refine ⟨link.closing, hlt, hc, fun u hu => ?_⟩
      obtain ⟨d, hd, hu⟩ := Option.bind_eq_some_iff.1 hu
      exact ⟨d, (hdiv d hd).1, (hdiv d hd).2, hu⟩

theorem inside_branch (h : p.Stretch t) {i j : Nat} (ht : t.tags[i]? = some tag) (hij : i < j)
    {closing : LinkedTag} {divider : Option LinkedTag} (hc : t.tags[j]? = some closing)
    (hd : ∀ u, divider = some u → ∃ d, i < d ∧ d < j ∧ t.tags[d]? = some u) {holds : Bool}
    {body : Span} (hb : branch tag closing divider holds = some body) : p.Inside body := by
  unfold branch at hb
  split at hb
  · obtain ⟨d, hid, -, hu⟩ := hd _ rfl
    exact Option.some.inj hb ▸ h.between hid ht hu
  · exact Option.some.inj hb ▸ h.between hij ht hc
  · obtain ⟨d, -, hdj, hu⟩ := hd _ rfl
    exact Option.some.inj hb ▸ h.between hdj hu hc
  · cases hb

/-- What a tag asks for: a stretch of the page, for a block; the file that it names, for an include
tag. -/
def Fits (p : Page) (tag : Tag) : Action → Prop
  | .emit _ => True
  | .each body _ => tag.opensBlock ∧ p.Inside body
  | .paste name =>
    (tag.closes = false ∧ (tag.kind = .incl ∨ tag.kind = .includes)) ∧ name = tag.nameOrEmpty

theorem isIn_unclosed (ht : tag.toTag ∈ p.allTags) (ho : tag.opensBlock) :
    RenderFault.IsIn p (.blocks [.unclosed tag.kind tag.span] p.path) :=
  ⟨rfl, List.cons_ne_nil _ _, by simpa using ⟨_, ht, ho, rfl, rfl⟩⟩

theorem dispatch_spec (h : p.Stretch t) (ht : tag ∈ t.tags) (b : Bindings) :
    match (p.dispatch t tag b).result with
    | .ok (action, _) => p.Fits tag.toTag action
    | .error e => e.IsIn p := by
  have hmem := h.mem_allTags ht
  obtain ⟨i, hi⟩ := List.mem_iff_getElem?.1 ht
  have hpartners := partners_spec h hi
  rcases hc : tag.closes with _ | _
  · cases hk : tag.kind <;>
      simp only [dispatch, hc, hk, Bool.false_eq_true, if_false, Rendering.result_bind,
        Rendering.result_note, Rendering.ok_bind, Rendering.result_pure, Rendering.result_fail]
    case var => trivial
    case incl => exact ⟨⟨hc, .inl hk⟩, rfl⟩
    case includes => exact ⟨⟨hc, .inr hk⟩, rfl⟩
    case elseMark => exact ⟨rfl, _, hmem, hk, rfl⟩
    case ifBlock | unlessBlock =>
      have hopens : tag.opensBlock := by simp [Tag.opensBlock, hc, hk, Kind.isBlock]
      rcases hp : (p.partners t tag).result with e | ⟨closing, divider⟩ <;> rw [hp] at hpartners
      · rw [hpartners]
        exact isIn_unclosed hmem hopens
      · obtain ⟨j, hij, hj, hd⟩ := hpartners
        simp only [Rendering.ok_bind]
        rcases hb : branch tag closing divider _ with _ | body
        · trivial
        · exact ⟨hopens, inside_branch h hi hij hj hd hb⟩
    case loopBlock =>
      have hopens : tag.opensBlock := by simp [Tag.opensBlock, hc, hk, Kind.isBlock]
      rcases hp : (p.partners t tag).result with e | ⟨closing, divider⟩ <;> rw [hp] at hpartners
      · rw [hpartners]
        exact isIn_unclosed hmem hopens
      · obtain ⟨j, hij, hj, -⟩ := hpartners
        simp only [Rendering.ok_bind]
        rcases b.loop? tag.nameOrEmpty with _ | _ | ⟨child, children⟩
        · trivial
        · trivial
        · exact ⟨hopens, h.between hij hi hj⟩
  · simp only [dispatch, hc, if_true, Rendering.result_bind, Rendering.result_note,
      Rendering.ok_bind, Rendering.result_fail]
    exact ⟨rfl, _, hmem, hc, rfl, rfl⟩

end Page

/-! ## Renderings -/

namespace Renderer

variable {α β : Type} {r : Renderer} {files : Files} {events events' : List Event} {p q top : Page}

theorem Reads.mono (h : r.Reads files events top p) (hs : events ⊆ events') :
    r.Reads files events' top p := by
  induction h with
  | top => exact .top
  | included _ ht hk hf he ih => exact .included ih ht hk hf (hs he)

theorem Reads.trans (hp : r.Reads files events top p) (hq : r.Reads files events p q) :
    r.Reads files events top q := by
  induction hq with
  | top => exact hp
  | included _ ht hk hf he ih => exact .included ih ht hk hf he

/-- What stops the rendering of a page is in the page, or in one that the rendering has read. -/
def Placed (r : Renderer) (files : Files) (top : Page) (x : Rendering α) : Prop :=
  ∀ e, x.result = .error e → ∃ p, r.Reads files x.events top p ∧ e.IsIn p

theorem placed_of_isIn {x : Rendering α} (h : ∀ e, x.result = .error e → e.IsIn p) :
    r.Placed files p x := fun e he => ⟨p, .top, h e he⟩

theorem placed_pure (a : α) : r.Placed files p (pure a : Rendering α) := fun e he => by cases he

theorem placed_bind {x : Rendering α} {f : α → Rendering β} (hx : r.Placed files p x)
    (hf : ∀ a, x.result = .ok a → r.Placed files p (f a)) : r.Placed files p (x >>= f) := by
  obtain ⟨events, e | a⟩ := x
  · exact fun e' he => hx e' (congrArg Except.error (Except.error.inj he))
  · intro e he
    obtain ⟨q, hq, hin⟩ := hf a rfl e he
    exact ⟨q, hq.mono (List.subset_append_right events _), hin⟩

theorem placed_parse {range : Span} {f : Template → Rendering α} (hr : p.Inside range)
    (hf : ∀ t, p.Stretch t → r.Placed files p (f t)) : r.Placed files p (p.parse range >>= f) := by
  have hparse := Page.parse_spec hr
  refine placed_bind (placed_of_isIn fun e he => ?_) fun t ht => hf t ?_
  · rwa [he] at hparse
  · rwa [ht] at hparse

/-- What is rendered one level deeper stops in a page that it has read. -/
def PlacedDeeper (r : Renderer) (files : Files) (deeper : Deeper) : Prop :=
  ∀ p t b, p.Stretch t → r.Placed files p (deeper p t b)

variable {deeper : Option Deeper} {t : Template} {tag : LinkedTag}

theorem placed_descend {tag : Tag} (ht : tag ∈ p.allTags) (hc : tag.closes = false)
    (hk : tag.kind.isBlock ∨ tag.kind = .incl ∨ tag.kind = .includes) :
    r.Placed files p (r.descend p tag deeper) := by
  refine placed_of_isIn fun e he => ?_
  rcases deeper with _ | deeper
  · obtain rfl := Except.error.inj he
    exact ⟨rfl, tag, ht, hc, hk, rfl⟩
  · cases he

theorem placed_forEach {deeper : Deeper} (hd : r.PlacedDeeper files deeper) (ht : p.Stretch t) :
    ∀ scopes : List Bindings, r.Placed files p (deeper.forEach p t scopes)
  | [] => placed_pure _
  | b :: rest =>
    placed_bind (hd p t b ht) fun _ _ => placed_bind (placed_forEach hd ht rest) fun _ _ =>
      placed_pure _

theorem mem_of_descend {tag : Tag} {d : Deeper} (h : (r.descend p tag deeper).result = .ok d) :
    d ∈ deeper := by
  rcases deeper with _ | deeper
  · cases h
  · exact congrArg some (Except.ok.inj h)

theorem placed_perform (hd : ∀ d ∈ deeper, r.PlacedDeeper files d) {tag : Tag}
    (ht : tag ∈ p.allTags) (b : Bindings) {action : Action} (ha : p.Fits tag action) :
    r.Placed files p (r.perform files deeper p tag b action) := by
  cases action with
  | emit value => exact placed_pure _
  | each body scopes =>
    obtain ⟨hopens, hbody⟩ := ha
    obtain ⟨hc, hk⟩ : tag.closes = false ∧ tag.kind.isBlock := by
      simpa [Tag.opensBlock] using hopens
    refine placed_bind (placed_descend ht hc (.inl hk)) fun d hdeeper => ?_
    exact placed_parse hbody fun t ht => placed_forEach (hd d (mem_of_descend hdeeper)) ht scopes
  | paste name =>
    obtain ⟨⟨hc, hk⟩, rfl⟩ := ha
    refine placed_bind (placed_descend ht hc (.inr hk)) fun d hdeeper => ?_
    simp only
    split
    · rename_i source hf
      intro e he
      -- the file is a page of its own, which the rendering of this one has read
      have hq := placed_parse (Page.inside_whole ⟨source, some (r.resolve tag.nameOrEmpty)⟩)
        fun t ht => hd d (mem_of_descend hdeeper) _ t b ht
      obtain ⟨s, hs, hin⟩ := hq e he
      rw [Rendering.events_note_bind]
      exact ⟨s, Reads.trans (.included .top ht ⟨hc, hk⟩ hf (by simp))
        (hs.mono (List.subset_cons_self _ _)), hin⟩
    · exact placed_bind (fun e he => by cases he) fun _ _ => placed_pure _

theorem placed_walk (hd : ∀ d ∈ deeper, r.PlacedDeeper files d) (ht : p.Stretch t) (b : Bindings) :
    ∀ (rest : List LinkedTag) (cursor : Nat), rest ⊆ t.tags →
      r.Placed files p (r.walk files deeper p t b cursor rest)
  | [], _, _ => placed_pure _
  | tag :: rest, cursor, hrest => by
    obtain ⟨htag, hrest⟩ := List.cons_subset.1 hrest
    rw [walk]
    split_ifs
    · exact placed_walk hd ht b rest cursor hrest
    · have hdispatch := Page.dispatch_spec ht htag b
      refine placed_bind (placed_of_isIn fun e he => ?_) fun x hx => ?_
      · rwa [he] at hdispatch
      · rw [hx] at hdispatch
        refine placed_bind (placed_perform hd (ht.mem_allTags htag) b hdispatch) fun out _ => ?_
        exact placed_bind (placed_walk hd ht b rest x.2 hrest) fun _ _ => placed_pure _

/-- However many levels are left, what stops the rendering is in a page that was read. -/
theorem placed_template (r : Renderer) (files : Files) : ∀ levels : Nat,
    r.PlacedDeeper files (r.template files levels)
  | 0, _, _, b, ht => placed_walk (fun _ hd => by cases hd) ht b _ _ (List.Subset.refl _)
  | levels + 1, _, _, b, ht =>
    placed_walk (fun _ hd => by cases hd; exact placed_template r files levels) ht b _ _
      (List.Subset.refl _)

theorem placed_page (r : Renderer) (files : Files) (p : Page) (b : Bindings) :
    r.Placed files p (r.page files p b) :=
  placed_parse (Page.inside_whole p) fun t ht => placed_template r files r.maxDepth p t b ht

theorem Reads.eq_or_isSome (h : r.Reads files events top p) : p = top ∨ p.path.isSome := by
  cases h with
  | top => exact .inl rfl
  | included => exact .inr rfl

end Renderer

theorem RenderFault.IsIn.span_mem {p : Page} {e : RenderFault} (h : e.IsIn p) : ∀ s ∈ e.spans,
    (∃ t ∈ p.allTags, t.span = s) ∧ s.start < s.stop ∧ s.stop ≤ p.source.length := by
  intro s hs
  have hmem : ∃ t ∈ p.allTags, t.span = s := by
    have hpoints := h.points
    cases e with
    | blocks faults path =>
      obtain ⟨f, hf, hs⟩ := List.mem_flatMap.1 hs
      exact (hpoints.2 f hf).span_mem hs
    | strayElse span path =>
      obtain rfl := List.mem_singleton.1 hs
      obtain ⟨t, ht, -, hspan⟩ := hpoints
      exact ⟨t, ht, hspan⟩
    | strayClose kind span path =>
      obtain rfl := List.mem_singleton.1 hs
      obtain ⟨t, ht, -, -, hspan⟩ := hpoints
      exact ⟨t, ht, hspan⟩
    | unreadable path why => exact hpoints.elim
    | tooDeep limit span path =>
      obtain rfl := List.mem_singleton.1 hs
      obtain ⟨t, ht, -, -, hspan⟩ := hpoints
      exact ⟨t, ht, hspan⟩
  refine ⟨hmem, ?_⟩
  obtain ⟨t, ht, rfl⟩ := hmem
  exact (Tag.scan_bounds le_rfl (Nat.zero_le _) ht).2

/-- Whatever stops a rendering is in a page that the rendering has read, and this is the source
itself if the fault names no file. It points at tags that reading the whole page finds, of the kinds
that can be at fault so. Only the file that is to be rendered itself stops the rendering by being
unreadable. -/
theorem fault_points_at_tags (r : Renderer) (files : Files) (b : Bindings) :
    (∀ source e, (r.render files source b).result = .error e →
      ∃ p, r.Reads files (r.render files source b).events ⟨source, none⟩ p ∧ e.IsIn p ∧
        (e.path? = none ↔ p = ⟨source, none⟩) ∧
        ∀ s ∈ e.spans,
          (∃ t ∈ p.allTags, t.span = s) ∧ s.start < s.stop ∧ s.stop ≤ p.source.length) ∧
    ∀ path e, (r.renderFile files path b).result = .error e →
      (∃ why, files path = .error why ∧ e = .unreadable path why) ∨
      ∃ source p, files path = .ok source ∧
        r.Reads files (r.renderFile files path b).events ⟨source, some path⟩ p ∧ e.IsIn p ∧
        ∀ s ∈ e.spans,
          (∃ t ∈ p.allTags, t.span = s) ∧ s.start < s.stop ∧ s.stop ≤ p.source.length := by
  constructor
  · intro source e he
    obtain ⟨p, hp, hin⟩ := r.placed_page files ⟨source, none⟩ b e he
    refine ⟨p, hp, hin, ?_, hin.span_mem⟩
    rw [hin.path]
    constructor
    · intro hnone
      rcases hp.eq_or_isSome with rfl | hsome
      · rfl
      · rw [hnone] at hsome
        cases hsome
    · rintro rfl
      rfl
  · intro path e he
    rcases hf : files path with why | source <;> simp only [Renderer.renderFile, hf] at he ⊢
    · exact .inl ⟨why, rfl, (Except.error.inj he).symm⟩
    · obtain ⟨p, hp, hin⟩ := r.placed_page files ⟨source, some path⟩ b e he
      exact .inr ⟨source, p, rfl, hp, hin, hin.span_mem⟩

/-- An else that divides no block, in a file that a loop in another file includes. -/
theorem fault_points_at_tags_included :
    let source : Bytes := .ofString "<TMPL_LOOP name=\"l\"> <TMPL_INCL name=\"a\"></TMPL_LOOP>"
    let a : Bytes := .ofString "<TMPL_VAR name=\"x\"><TMPL_ELSE>"
    let files : Files := fun path => if path = .ofString "./a" then .ok a else .error .notFound
    let b : Bindings := ⟨[], [("l", [∅])]⟩
    let e : RenderFault := .strayElse ⟨19, 30⟩ (some (.ofString "./a"))
    (Renderer.standard.render files source b).result = .error e ∧
      ∃ p, Renderer.standard.Reads files (Renderer.standard.render files source b).events
        ⟨source, none⟩ p ∧ e.IsIn p := by
  intro source a files b e
  have he : (Renderer.standard.render files source b).result = .error e := by decide +kernel
  obtain ⟨p, hp, hin, -⟩ := (fault_points_at_tags Renderer.standard files b).1 source e he
  exact ⟨he, p, hp, hin⟩

end Stencil
