import Stencil.Proofs.OpenPasses
import Stencil.Proofs.Regions

/-!
# No pass leaves its template

Every pass that a rendering opens walks over a template that was read in a stretch of its page, and
the stretch is in order and lies inside the page (`Template.ReadFrom`). So the offsets of its tags
are in order too, links lead to later tags of the same template, and what a tag asks for is a
stretch between two of them. Whatever is copied or read anew therefore lies inside the template at
hand, whose cursor only moves on (`run_inBounds`); and no block is without its closing tag.
-/

namespace Stencil

/-- Reading a stretch of the source gave the template, and the stretch is in order and lies inside
the source. -/
structure Template.ReadFrom (t : Template) (source : Bytes) : Prop where
  ordered : t.range.start ≤ t.range.stop
  inside : t.range.stop ≤ source.length
  read : parseRange source t.range = .ok t

/-- The link of a tag leads to tags of the template, the closing tag behind the tag and the else
between the two. -/
def Template.LinkInBounds (t : Template) (u : LinkedTag) (link : Link) : Prop :=
  ∃ closing, t.tags[link.closing]? = some closing ∧ u.span.stop ≤ closing.span.start ∧
    closing.span.start ≤ t.range.stop ∧ ∀ d, link.divider = some d →
      ∃ e, t.tags[d]? = some e ∧ u.span.stop ≤ e.span.start ∧ e.span.stop ≤ closing.span.start

/-- The stretch is in order and lies inside the other one. -/
def Span.Within (s range : Span) : Prop :=
  range.start ≤ s.start ∧ s.start ≤ s.stop ∧ s.stop ≤ range.stop

theorem Span.within_mk {start stop : Nat} {range : Span} (hstart : range.start ≤ start)
    (h : start ≤ stop) (hstop : stop ≤ range.stop) : Span.Within ⟨start, stop⟩ range :=
  ⟨hstart, h, hstop⟩

namespace OpenPass

/-- The text that the next step of the pass copies. -/
def copied (p : OpenPass) : Option Span :=
  match p.asked, p.rest with
  | [], [] => some ⟨p.cursor, p.template.range.stop⟩
  | [], t :: _ => if t.span.start < p.cursor then none else some ⟨p.cursor, t.span.start⟩
  | _ :: _, _ => none

/-- All offsets and indices that the pass may use are in order and inside its template, and the
template is inside the page. -/
structure InBounds (p : OpenPass) : Prop where
  region : p.template.range.Within ⟨0, p.page.source.length⟩
  cursor : p.template.range.start ≤ p.cursor ∧ p.cursor ≤ p.template.range.stop
  rest : p.rest ⊆ p.template.tags
  copies : ∀ s, p.copied = some s → s.Within p.template.range
  tags : ∀ u ∈ p.template.tags, u.span.Within p.template.range
  links : ∀ u ∈ p.template.tags, ∀ link, u.link = some link → p.template.LinkInBounds u link
  /-- Every block has its closing tag. -/
  partners : ∀ u ∈ p.template.tags, u.opensBlock →
    ∃ found, (p.page.partners p.template u).result = .ok found
  /-- What a tag asks for, and where the walk goes on behind it. -/
  dispatch : ∀ u ∈ p.template.tags, ∀ b action next,
    (p.page.dispatch p.template u b).result = .ok (action, next) →
      u.span.stop ≤ next ∧ next ≤ p.template.range.stop ∧
        ∀ body scopes, action = .each body scopes → body.Within p.template.range

end OpenPass

namespace Progress

/-- The open passes, innermost first. -/
def stack : Progress → List OpenPass
  | underway p around => p :: around
  | ended _ => []

/-- Every pass that is open in both states is the same one, and its cursor has not moved back. The
passes are told by how many are open around them. -/
def Onward (s s' : Progress) : Prop :=
  ∀ (i : Nat) (p p' : OpenPass), s.stack.reverse[i]? = some p → s'.stack.reverse[i]? = some p' →
    p'.toPassStart = p.toPassStart ∧ p.cursor ≤ p'.cursor

end Progress

/-! ## The tags of a template -/

namespace Template.ReadFrom

variable {t : Template} {source : Bytes} {i j : Nat} {u v : LinkedTag} {link : Link}

theorem of_parseRange {range : Span} (hr : range.Within ⟨0, source.length⟩)
    (h : parseRange source range = .ok t) : t.range = range ∧ t.ReadFrom source := by
  obtain ⟨rfl, -⟩ := ofTags_eq_ok h
  exact ⟨rfl, hr.2.1, hr.2.2, h⟩

theorem tags_eq (h : t.ReadFrom source) : t.tags = LinkedTag.ofTags (Tag.scan source t.range) :=
  (ofTags_eq_ok h.read).2.1

theorem map_toTag (h : t.ReadFrom source) : t.tags.map (·.toTag) = Tag.scan source t.range := by
  rw [h.tags_eq, LinkedTag.map_toTag_ofTags]

theorem span_bounds (h : t.ReadFrom source) (hu : u ∈ t.tags) :
    t.range.start ≤ u.span.start ∧ u.span.start < u.span.stop ∧ u.span.stop ≤ t.range.stop :=
  Tag.scan_bounds h.inside h.ordered (h.map_toTag ▸ List.mem_map_of_mem hu)

theorem span_within (h : t.ReadFrom source) (hu : u ∈ t.tags) : u.span.Within t.range := by
  obtain ⟨hstart, hlt, hstop⟩ := h.span_bounds hu
  exact ⟨hstart, hlt.le, hstop⟩

theorem stop_le_start (h : t.ReadFrom source) (hij : i < j) (hu : t.tags[i]? = some u)
    (hv : t.tags[j]? = some v) : u.span.stop ≤ v.span.start := by
  have hpair := Tag.scan_pairwise h.inside h.ordered
  rw [← h.map_toTag, List.pairwise_map] at hpair
  obtain ⟨hi, rfl⟩ := List.getElem?_eq_some_iff.1 hu
  obtain ⟨hj, rfl⟩ := List.getElem?_eq_some_iff.1 hv
  exact List.pairwise_iff_getElem.1 hpair i j hi hj hij

theorem linkInBounds (h : t.ReadFrom source) (hu : u ∈ t.tags) (hl : u.link = some link) :
    t.LinkInBounds u link := by
  obtain ⟨i, hi⟩ := List.mem_iff_getElem?.1 hu
  have hlink := hi
  rw [h.tags_eq] at hlink
  obtain ⟨hlt, hlen, hdiv⟩ := LinkedTag.link_bounds hlink hl
  rw [← h.map_toTag, List.length_map] at hlen
  have hc := List.getElem?_eq_getElem hlen
  obtain ⟨-, hclt, hcstop⟩ := h.span_bounds (List.mem_of_getElem? hc)
  refine ⟨_, hc, h.stop_le_start hlt hi hc, by omega, fun d hd => ?_⟩
  obtain ⟨hid, hdc⟩ := hdiv d hd
  have he := List.getElem?_eq_getElem (show d < t.tags.length by omega)
  exact ⟨_, he, h.stop_le_start hid hi he, h.stop_le_start hdc he hc⟩

/-- A template was read without fault, so that its opening block tags are linked. -/
theorem link_of_opensBlock (h : t.ReadFrom source) (hu : u ∈ t.tags) (ho : u.opensBlock) :
    ∃ link, u.link = some link := by
  rw [h.tags_eq] at hu
  exact (LinkedTag.opensBlock_iff (ofTags_eq_ok h.read).2.2 hu).1 ho

/-- The closing tag and the else of a block are there, and they lie where the link leads. -/
theorem partners_eq {p : Page} (h : t.ReadFrom p.source) (hu : u ∈ t.tags) (ho : u.opensBlock) :
    ∃ closing divider, p.partners t u = pure (closing, divider) ∧
      u.span.stop ≤ closing.span.start ∧ closing.span.start ≤ closing.span.stop ∧
      closing.span.stop ≤ t.range.stop ∧ ∀ e, divider = some e →
        u.span.stop ≤ e.span.start ∧ e.span.start ≤ e.span.stop ∧
          e.span.stop ≤ closing.span.start := by
  obtain ⟨link, hl⟩ := h.link_of_opensBlock hu ho
  obtain ⟨closing, hc, huc, -, hdiv⟩ := h.linkInBounds hu hl
  obtain ⟨-, hclt, hcstop⟩ := h.span_bounds (List.mem_of_getElem? hc)
  refine ⟨closing, link.divider.bind (t.tags[·]?), ?_, huc, hclt.le, hcstop, fun e he => ?_⟩
  · simp [Page.partners, hl, hc]
  · obtain ⟨d, hd, he⟩ := Option.bind_eq_some_iff.1 he
    obtain ⟨e', he', hue, hec⟩ := hdiv d hd
    obtain rfl := Option.some.inj (he.symm.trans he')
    exact ⟨hue, (h.span_bounds (List.mem_of_getElem? he)).2.1.le, hec⟩

/-- What a tag asks for lies between two tags of the template, and the walk goes on behind it. -/
theorem dispatch_bounds {p : Page} {b : Bindings} {action : Action} {next : Nat}
    (h : t.ReadFrom p.source) (hu : u ∈ t.tags)
    (hd : (p.dispatch t u b).result = .ok (action, next)) :
    u.span.stop ≤ next ∧ next ≤ t.range.stop ∧
      ∀ body scopes, action = .each body scopes → body.Within t.range := by
  obtain ⟨hstart, hlt, hstop⟩ := h.span_bounds hu
  rcases hc : u.closes with _ | _
  · cases hk : u.kind <;>
      simp only [Page.dispatch, hc, hk, Bool.false_eq_true, if_false, Rendering.result_bind,
        Rendering.result_note, Rendering.ok_bind, Rendering.result_pure, Rendering.result_fail,
        Except.ok.injEq, Prod.mk.injEq, reduceCtorEq] at hd
    case var | incl | includes =>
      obtain ⟨rfl, rfl⟩ := hd
      exact ⟨le_rfl, hstop, nofun⟩
    case ifBlock | unlessBlock =>
      have hopens : u.opensBlock := by simp [Tag.opensBlock, hc, hk, Kind.isBlock]
      obtain ⟨closing, divider, hp, huc, hclt, hcstop, hdiv⟩ := h.partners_eq hu hopens
      simp only [hp, Rendering.result_pure, Rendering.ok_bind] at hd
      split at hd <;> obtain ⟨rfl, rfl⟩ := Prod.mk.inj (Except.ok.inj hd)
      · -- the branch that is shown lies between the tag and the else, or one of them and the end
        rename_i body hb
        refine ⟨by omega, hcstop, fun body' scopes he => ?_⟩
        obtain ⟨rfl, -⟩ := Action.each.inj he
        unfold Page.branch at hb
        split at hb <;> cases hb
        · have := hdiv _ rfl
          exact Span.within_mk (by omega) this.1 (by omega)
        · exact Span.within_mk (by omega) huc (by omega)
        · have := hdiv _ rfl
          exact Span.within_mk (by omega) this.2.2 (by omega)
      · exact ⟨by omega, hcstop, nofun⟩
    case loopBlock =>
      have hopens : u.opensBlock := by simp [Tag.opensBlock, hc, hk, Kind.isBlock]
      obtain ⟨closing, divider, hp, huc, hclt, hcstop, -⟩ := h.partners_eq hu hopens
      simp only [hp, Rendering.result_pure, Rendering.ok_bind] at hd
      split at hd <;> obtain ⟨rfl, rfl⟩ := Prod.mk.inj (Except.ok.inj hd)
      · refine ⟨by omega, hcstop, fun body' scopes he => ?_⟩
        obtain ⟨rfl, -⟩ := Action.each.inj he
        exact Span.within_mk (by omega) huc (by omega)
      · exact ⟨by omega, hcstop, nofun⟩
  · simp [Page.dispatch, hc] at hd

end Template.ReadFrom

/-! ## Open passes -/

/-- What holds of every pass that is open: its template was read in its page, as were those that it
has asked for, and its cursor lies in the template. -/
structure OpenPass.Sound (p : OpenPass) : Prop where
  template : p.template.ReadFrom p.page.source
  rest : p.rest ⊆ p.template.tags
  cursor : p.template.range.start ≤ p.cursor ∧ p.cursor ≤ p.template.range.stop
  asked : ∀ o ∈ p.asked, o.template.ReadFrom o.page.source

namespace OpenPass

variable {p : OpenPass}

theorem sound_pass {o : PassStart} (h : o.template.ReadFrom o.page.source) : o.pass.Sound :=
  ⟨h, List.Subset.refl _, ⟨le_rfl, h.ordered⟩, nofun⟩

theorem Sound.copied_within (h : p.Sound) {s : Span} (hs : p.copied = some s) :
    s.Within p.template.range := by
  obtain ⟨htemplate, hrest, ⟨hstart, hstop⟩, -⟩ := h
  unfold copied at hs
  split at hs
  · obtain rfl := Option.some.inj hs
    exact ⟨hstart, hstop, le_rfl⟩
  · rename_i t rest _ hr
    rw [hr] at hrest
    have ht := htemplate.span_bounds (List.cons_subset.1 hrest).1
    split_ifs at hs with hlt
    obtain rfl := Option.some.inj hs
    exact Span.within_mk hstart (Nat.le_of_not_lt hlt) (by omega)
  · cases hs

theorem Sound.inBounds (h : p.Sound) : p.InBounds where
  region := ⟨Nat.zero_le _, h.template.ordered, h.template.inside⟩
  cursor := h.cursor
  rest := h.rest
  copies _ hs := h.copied_within hs
  tags _ hu := h.template.span_within hu
  links _ hu _ hl := h.template.linkInBounds hu hl
  partners _ hu ho := by
    obtain ⟨closing, divider, hp, -⟩ := h.template.partners_eq hu ho
    exact ⟨_, congrArg Rendering.result hp⟩
  dispatch _ hu _ _ _ hd := h.template.dispatch_bounds hu hd

end OpenPass

namespace Renderer

variable {r : Renderer} {files : Files} {p : OpenPass} {around : List OpenPass}

theorem readFrom_of_parse {page : Page} (range : Span) {t : Template}
    (hr : range.Within ⟨0, page.source.length⟩) (h : (page.parse range).result = .ok t) :
    t.ReadFrom page.source := by
  simp only [Page.parse, Rendering.result_ofResult] at h
  rcases ht : Template.parseRange page.source range with es | t' <;> rw [ht] at h
  · cases h
  · obtain rfl := Except.ok.inj h
    exact (Template.ReadFrom.of_parseRange hr ht).2

theorem readFrom_of_parseAll {page : Page} {t : Template} (h : page.parseAll.result = .ok t) :
    t.ReadFrom page.source :=
  readFrom_of_parse ⟨0, page.source.length⟩ ⟨le_rfl, Nat.zero_le _, le_rfl⟩ h

/-- The passes that an action asks for go over stretches of the page, or over a whole file. -/
theorem readFrom_of_ask {depth : Nat} {page : Page} {tag : Tag} {b : Bindings} {action : Action}
    {out : Chain} {asked : List PassStart}
    (hbody : ∀ body scopes, action = .each body scopes → body.Within ⟨0, page.source.length⟩)
    (h : r.ask files depth page tag b action = .ok (out, asked)) :
    ∀ o ∈ asked, o.template.ReadFrom o.page.source := by
  cases action with
  | emit value =>
    obtain ⟨-, rfl⟩ := Prod.mk.inj (Except.ok.inj h)
    exact nofun
  | each body scopes =>
    rw [ask] at h
    rcases hcheck : r.checkDepth depth page tag with e | u <;> rw [hcheck] at h
    · cases h
    · rcases ht : (page.parse body).result with e | t <;> rw [ht] at h
      · cases h
      · obtain ⟨-, rfl⟩ := Prod.mk.inj (Except.ok.inj h)
        intro o ho
        obtain ⟨b, -, rfl⟩ := List.mem_map.1 ho
        exact readFrom_of_parse body (hbody body scopes rfl) ht
  | paste name =>
    rw [ask] at h
    rcases hcheck : r.checkDepth depth page tag with e | u <;> rw [hcheck] at h
    · cases h
    · simp only [Rendering.ok_bind] at h
      rcases hf : files (r.resolve name) with why | source <;> rw [hf] at h
      · obtain ⟨-, rfl⟩ := Prod.mk.inj (Except.ok.inj h)
        exact nofun
      · simp only at h
        rcases ht : (Page.parseAll ⟨source, some (r.resolve name)⟩).result with e | t <;>
          rw [ht] at h
        · cases h
        · obtain ⟨-, rfl⟩ := Prod.mk.inj (Except.ok.inj h)
          intro o ho
          obtain rfl := List.mem_singleton.1 ho
          exact readFrom_of_parseAll ht

/-- A tag is dealt with: the passes around stay, and that of the tag does unless all ends. -/
theorem sound_take {t : LinkedTag} {rest : List LinkedTag} (hr : p.rest = t :: rest)
    (h : p.Sound) : (∃ x, r.take files p around t rest = .ended x) ∨
      ∃ p', r.take files p around t rest = .underway p' around ∧
        p'.toPassStart = p.toPassStart ∧ p.cursor ≤ p'.cursor ∧ p'.Sound := by
  obtain ⟨htemplate, hrest, hcursor, hasked⟩ := h
  rw [hr] at hrest
  obtain ⟨ht, hrest⟩ := List.cons_subset.1 hrest
  unfold take
  split_ifs with hlt
  · exact .inr ⟨_, rfl, rfl, le_rfl, htemplate, hrest, hcursor, hasked⟩
  · rcases hd : (p.page.dispatch p.template t p.scope).result with e | ⟨action, next⟩
    · exact .inl ⟨_, rfl⟩
    · obtain ⟨hstop, hnext, hbody⟩ := htemplate.dispatch_bounds ht hd
      obtain ⟨hstart, htag, -⟩ := htemplate.span_bounds ht
      simp only
      rcases ha : r.ask files around.length p.page t.toTag p.scope action with e | ⟨out, asked⟩
      · exact .inl ⟨_, rfl⟩
      · have hinside : ∀ body scopes, action = .each body scopes →
            body.Within ⟨0, p.page.source.length⟩ := by
          intro body scopes he
          obtain ⟨-, hordered, hle⟩ := hbody body scopes he
          exact ⟨Nat.zero_le _, hordered, hle.trans htemplate.inside⟩
        refine .inr ⟨_, rfl, rfl, ?_, htemplate, hrest, ?_, readFrom_of_ask hinside ha⟩
        · simp only
          omega
        · simp only
          omega

theorem onward_ended {s : Progress} (x : Except RenderFault Chain) : s.Onward (.ended x) :=
  fun _ _ _ _ hp' => by simp [Progress.stack] at hp'

/-- Where one pass has moved on and those around it are the same, at most one state has further
passes inside of it. -/
theorem onward_of_moved {s s' : Progress} {p' : OpenPass} (inner inner' : List OpenPass)
    (hs : s.stack = inner ++ p :: around) (hs' : s'.stack = inner' ++ p' :: around)
    (hinner : inner = [] ∨ inner' = []) (hp : p'.toPassStart = p.toPassStart)
    (hc : p.cursor ≤ p'.cursor) : s.Onward s' := by
  intro i q q' hq hq'
  simp only [hs, hs', List.reverse_append, List.reverse_cons] at hq hq'
  have hi : i < around.length + 1 := by
    have hi := (List.getElem?_eq_some_iff.1 hq).1
    have hi' := (List.getElem?_eq_some_iff.1 hq').1
    rcases hinner with rfl | rfl
    · simpa using hi
    · simpa using hi'
  rw [List.getElem?_append_left (by simpa using hi)] at hq hq'
  rcases Nat.lt_or_ge i around.length with hlt | hge
  · rw [List.getElem?_append_left (by simpa using hlt)] at hq hq'
    obtain rfl := Option.some.inj (hq.symm.trans hq')
    exact ⟨rfl, le_rfl⟩
  · rw [List.getElem?_append_right (by simpa using hge)] at hq hq'
    obtain rfl := List.mem_singleton.1 (List.mem_of_getElem? hq)
    obtain rfl := List.mem_singleton.1 (List.mem_of_getElem? hq')
    exact ⟨hp, hc⟩

/-- A step keeps every open pass inside its template, and no cursor moves back. -/
theorem sound_step {s : Progress} (h : ∀ p ∈ s.stack, p.Sound) :
    (∀ p ∈ (r.step files s).stack, p.Sound) ∧ s.Onward (r.step files s) := by
  cases s with
  | ended x => exact ⟨nofun, onward_ended x⟩
  | underway p around =>
    obtain ⟨hp, haround⟩ := List.forall_mem_cons.1 h
    rcases ha : p.asked with _ | ⟨o, asked⟩
    · rcases hr : p.rest with _ | ⟨t, rest⟩
      · -- the pass ends, and the one around it has its output
        rw [step_end ha hr]
        cases around with
        | nil => exact ⟨nofun, onward_ended _⟩
        | cons q around =>
          obtain ⟨⟨htemplate, hrest, hcursor, hasked⟩, haround⟩ := List.forall_mem_cons.1 haround
          exact ⟨List.forall_mem_cons.2 ⟨⟨htemplate, hrest, hcursor, hasked⟩, haround⟩,
            onward_of_moved [p] [] rfl rfl (.inr rfl) rfl le_rfl⟩
      · rw [step_tag ha hr]
        rcases sound_take hr hp with ⟨x, hx⟩ | ⟨p', hx, hstart, hcursor, hp'⟩
        · rw [hx]
          exact ⟨nofun, onward_ended x⟩
        · rw [hx]
          exact ⟨List.forall_mem_cons.2 ⟨hp', haround⟩,
            onward_of_moved [] [] rfl rfl (.inl rfl) hstart hcursor⟩
    · -- a pass begins, inside the one that has asked for it
      rw [step_asked ha]
      obtain ⟨htemplate, hrest, hcursor, hasked⟩ := hp
      rw [ha] at hasked
      obtain ⟨ho, hasked⟩ := List.forall_mem_cons.1 hasked
      exact ⟨List.forall_mem_cons.2 ⟨OpenPass.sound_pass ho,
        List.forall_mem_cons.2 ⟨⟨htemplate, hrest, hcursor, hasked⟩, haround⟩⟩,
        onward_of_moved [] [o.pass] rfl rfl (.inl rfl) rfl le_rfl⟩

theorem sound_start (page : Page) (b : Bindings) : ∀ p ∈ (start page b).stack, p.Sound := by
  unfold start
  rcases ht : page.parseAll.result with e | t
  · exact nofun
  · intro p hp
    obtain rfl := List.mem_singleton.1 hp
    exact OpenPass.sound_pass (readFrom_of_parseAll ht)

theorem sound_run (r : Renderer) (files : Files) : ∀ (n : Nat) {s : Progress},
    (∀ p ∈ s.stack, p.Sound) →
    ∀ p ∈ (r.run files n s).stack, p.Sound
  | 0, _, h => h
  | n + 1, _, h => sound_run r files n (sound_step h).1

end Renderer

/-- The steps of a rendering lead to its result, and at none of them is anything out of bounds:
every open pass walks over a template inside its page, copies and asks for stretches inside the
template, and finds the closing tag of each block and its else among the tags of the template, in
order. From one step to the next no cursor moves back. -/
theorem run_inBounds (r : Renderer) (files : Files) (page : Page) (b : Bindings) :
    (∃ n, r.run files n (Renderer.start page b) = .ended (r.page files page b).result) ∧
      ∀ n, (∀ p ∈ (r.run files n (Renderer.start page b)).stack, p.InBounds) ∧
        (r.run files n (Renderer.start page b)).Onward
          (r.run files (n + 1) (Renderer.start page b)) := by
  refine ⟨r.reaches_page files page b, fun n => ?_⟩
  have hsound := Renderer.sound_run r files n (Renderer.sound_start page b)
  have hnext : r.run files (n + 1) (Renderer.start page b) =
      r.step files (r.run files n (Renderer.start page b)) := (Renderer.run_run 1 n _).symm
  exact ⟨fun p hp => (hsound p hp).inBounds, hnext ▸ (Renderer.sound_step hsound).2⟩

end Stencil
