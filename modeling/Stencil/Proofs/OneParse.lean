import Stencil.Proofs.Reading

/-!
# Reading bodies anew changes nothing

A rendering reads the body of every block anew, as a template of its own. It gives what the one
reading of the page gives (`render_eq_interpret`), be the blocks well nested or not: the stretch of
a region has the tags of the region, with the links that they had, and where a block that opens
there closes outside, reading the stretch finds the fault for which the region is not gone into.

The walk over the tags of a region keeps its place as an offset, and the walk over the reading as
an index. The offset is the one behind the tags that are taken up (`walk_eq`).
-/

namespace Stencil

namespace Reading

/-- Rendering the stretch of a region gives what the reading gives for the region. -/
def Faithful (deeper : Deeper) (inner : Inner) : Prop :=
  ∀ (R : Reading) (g : Region) (b : Bindings), R.Parsed → g.Within R.tags.length →
    g.dangling R.tags = [] → (deeper R.page (R.template.cut g) b).result = inner R g b

/-- The ways one level down are both closed, or agree. -/
inductive Agree : Option Deeper → Option Inner → Prop
  | closed : Agree none none
  | down {deeper : Deeper} {inner : Inner} (h : Faithful deeper inner) :
    Agree (some deeper) (some inner)

variable {r : Renderer} {files : Files} {deeper : Option Deeper} {inner : Option Inner}
  {R : Reading} {g : Region} {b : Bindings} {i : Nat} {t : LinkedTag}

/-! ## Bodies and files -/

theorem result_parse (h : R.Parsed) (hg : g.Within R.tags.length) :
    (R.page.parse (R.template.cut g).range).result =
      (R.enter g).map fun _ => R.template.cut g := by
  have hparse := Template.parseRange_region le_rfl (Nat.zero_le _) h hg
  rw [show R.template.tags = R.tags from rfl] at hparse
  simp only [Page.parse, Rendering.result_ofResult, hparse, enter]
  rcases g.dangling R.tags with _ | ⟨e, es⟩ <;> rfl

theorem result_parseAll (p : Page) :
    p.parseAll.result = (ofPage p).map fun R => R.template := by
  simp only [Page.parseAll, Page.parse, Rendering.result_ofResult, ofPage]
  rw [← Template.parse]
  rcases h : Template.parse p.source with es | t
  · rfl
  · exact congrArg Except.ok (parsed_of_parse h).2.symm

theorem parsed_of_ofPage {p : Page} (h : ofPage p = .ok R) : R.Parsed ∧ R.page = p := by
  unfold ofPage at h
  split at h
  · rename_i t ht
    obtain rfl := Except.ok.inj h
    exact ⟨(parsed_of_parse ht).1, rfl⟩
  · cases h

theorem result_forEach {deeper : Deeper} {p : Page} {t : Template} : ∀ scopes : List Bindings,
    (deeper.forEach p t scopes).result = rounds (fun b => (deeper p t b).result) scopes
  | [] => rfl
  | b :: rest => by
    simp only [Deeper.forEach, Rendering.result_bind, Rendering.result_pure, rounds,
      result_forEach rest]
    rfl

theorem result_each (ha : Agree deeper inner) (h : R.Parsed) (hg : g.Within R.tags.length)
    (scopes : List Bindings) :
    (r.perform files deeper R.page t.toTag b (.each (R.template.cut g).range scopes)).result =
      R.body r inner t g scopes := by
  cases ha with
  | closed => rfl
  | down hd =>
    simp only [Renderer.perform, Renderer.descend, Rendering.result_bind, Rendering.result_pure,
      result_parse h hg, body, enter]
    rcases hdangling : g.dangling R.tags with _ | ⟨e, es⟩
    · refine (result_forEach scopes).trans ?_
      exact congrArg (rounds · scopes) (funext fun b => hd R g b h hg hdangling)
    · rfl

theorem result_paste (ha : Agree deeper inner) :
    (r.perform files deeper R.page t.toTag b (.paste t.nameOrEmpty)).result =
      R.file r files inner t b := by
  cases ha with
  | closed => rfl
  | down hd =>
    simp only [Renderer.perform, Renderer.descend, Rendering.result_bind, Rendering.result_pure,
      file]
    rcases files (r.resolve t.nameOrEmpty) with why | source
    · rfl
    · simp only [Rendering.result_bind, Rendering.result_note, result_parseAll]
      rcases hR : ofPage ⟨source, some (r.resolve t.nameOrEmpty)⟩ with e | R'
      · rfl
      · obtain ⟨hparsed, hpage⟩ := parsed_of_ofPage hR
        have hwhole : R'.whole.Within R'.tags.length := ⟨Nat.zero_le _, le_rfl⟩
        have := hd R' R'.whole b hparsed hwhole (dangling_whole hparsed)
        rwa [cut_whole, hpage] at this

/-! ## The partners of a block -/

/-- In the stretch of a region stand the tags of the region, by their indices there. -/
theorem getElem?_cut (hi : g.Holds i) :
    (R.template.cut g).tags[i - g.first]? = R.tags[i]?.map (·.relative g.first) := by
  have hfirst := hi.1
  rw [show (R.template.cut g).tags = (g.of R.tags).map (·.relative g.first) from rfl,
    List.getElem?_map, Region.getElem?_of, Nat.add_sub_cancel' hfirst, if_pos hi.2]

theorem link_holds (hd : g.dangling R.tags = []) (hi : g.Holds i) (ht : R.tags[i]? = some t)
    {link : Link} (hl : t.link = some link) : g.Holds link.closing := by
  have hmem : t ∈ g.of R.tags := by
    have hof := Region.getElem?_of g R.tags (i - g.first)
    rw [Nat.add_sub_cancel' hi.1, if_pos hi.2, ht] at hof
    exact List.mem_of_getElem? hof
  have hin := List.filterMap_eq_nil_iff.1 hd t hmem
  rw [hl] at hin
  by_contra hout
  simp [hout] at hin

/-- The closing tag and the else of a linked tag are those of its link. -/
theorem partners_cut (h : R.Parsed) (hd : g.dangling R.tags = []) (hi : g.Holds i)
    (ht : R.tags[i]? = some t) {link : Link} (hl : t.link = some link) :
    ∃ closing divider, R.page.partners (R.template.cut g) (t.relative g.first)
        = pure (closing, divider) ∧
      closing.span = ⟨R.before link.closing, R.behind (link.closing + 1)⟩ ∧
      divider.map (·.span) = link.divider.map fun d => ⟨R.before d, R.behind (d + 1)⟩ := by
  obtain ⟨hlt, hlen, hdiv⟩ := h.link_bounds ht hl
  have hclosing := link_holds hd hi ht hl
  obtain ⟨c, hc⟩ : ∃ c, R.tags[link.closing]? = some c := ⟨_, List.getElem?_eq_getElem hlen⟩
  rcases hdivider : link.divider with _ | d
  · refine ⟨c.relative g.first, none, ?_, (span_eq hc : c.span = _), rfl⟩
    simp [Page.partners, LinkedTag.relative, hl, Link.relative, getElem?_cut hclosing, hc, hdivider]
  · obtain ⟨hid, hdc⟩ := hdiv d hdivider
    have hholds : g.Holds d := ⟨by have := hi.1; omega, by have := hclosing.2; omega⟩
    obtain ⟨u, hu⟩ : ∃ u, R.tags[d]? = some u :=
      ⟨_, List.getElem?_eq_getElem (show d < R.tags.length by omega)⟩
    refine ⟨c.relative g.first, some (u.relative g.first), ?_, (span_eq hc : c.span = _), ?_⟩
    · simp [Page.partners, LinkedTag.relative, hl, Link.relative, getElem?_cut hclosing,
        getElem?_cut hholds, hc, hu, hdivider]
    · exact congrArg some (span_eq hu : u.span = _)

/-! ## One tag -/

theorem last_eq_of_ok {x : Except RenderFault Chain} {n last : Nat} {out : Chain}
    (h : (do let c ← x
             return (c, n)) = .ok (out, last)) : last = n := by
  rcases x with e | c
  · cases h
  · exact (Prod.mk.inj (Except.ok.inj h)).2.symm

/-- The last tag that a tag takes up is itself, or the closing tag of its block. -/
theorem tag_last {out : Chain} {last : Nat} (hok : R.tag r files inner b i t = .ok (out, last)) :
    last = i ∨ ∃ link, t.link = some link ∧ last = link.closing := by
  have hblock : ∀ shown, R.block t shown = .ok (out, last) →
      last = i ∨ ∃ link, t.link = some link ∧ last = link.closing := by
    intro shown hok
    unfold block at hok
    split at hok
    · cases hok
    · rename_i link hl
      exact .inr ⟨link, hl, last_eq_of_ok hok⟩
  unfold tag at hok
  split at hok
  · cases hok
  · split at hok
    · cases hok
    · exact .inl (Prod.mk.inj (Except.ok.inj hok)).2.symm
    · exact .inl (last_eq_of_ok hok)
    · exact .inl (last_eq_of_ok hok)
    · exact hblock _ hok
    · exact hblock _ hok
    · exact hblock _ hok

/-- A tag leads on, inside the region. -/
theorem tag_bounds (h : R.Parsed) (hd : g.dangling R.tags = []) (hi : g.Holds i)
    (ht : R.tags[i]? = some t) {out : Chain} {last : Nat}
    (hok : R.tag r files inner b i t = .ok (out, last)) : i ≤ last ∧ last < g.last := by
  rcases tag_last hok with rfl | ⟨link, hl, rfl⟩
  · exact ⟨le_rfl, hi.2⟩
  · exact ⟨(h.link_bounds ht hl).1.le, (link_holds hd hi ht hl).2⟩

theorem result_partners_none (hl : t.link = none) {T : Template} (n : Nat) :
    R.page.partners T (t.relative n) = .fail (.blocks [.unclosed t.kind t.span] R.page.path) := by
  simp only [Page.partners, LinkedTag.link_relative, hl]
  rfl

/-- The shown body of a conditional block is the stretch of the shown region. -/
theorem branch_cut {link : Link} {closing : LinkedTag} {divider : Option LinkedTag} (n : Nat)
    (ht : R.tags[i]? = some t)
    (hc : closing.span = ⟨R.before link.closing, R.behind (link.closing + 1)⟩)
    (hd : divider.map (·.span) = link.divider.map fun d => ⟨R.before d, R.behind (d + 1)⟩)
    (holds : Bool) : Page.branch (t.relative n) closing divider holds =
      (branch i link holds).map fun g => (R.template.cut g).range := by
  have hstop := behind_succ ht
  rcases hdivider : link.divider with _ | d <;> rcases divider with _ | u <;>
    rw [hdivider] at hd <;> simp only [Option.map_some, Option.map_none, reduceCtorEq] at hd
  · rcases holds <;>
      simp only [Page.branch, branch, hdivider, hc, LinkedTag.toTag_relative, ← hstop]
    · rfl
    · rfl
  · rcases holds <;> simp only [Page.branch, branch, hdivider, hc, Option.some.inj hd,
      LinkedTag.toTag_relative, ← hstop]
    · rfl
    · rfl

/-- The shown region lies between the tags of the block. -/
theorem branch_bounds (h : R.Parsed) (ht : R.tags[i]? = some t) {link : Link}
    (hl : t.link = some link) {holds : Bool} {g : Region} (hb : branch i link holds = some g) :
    i + 1 ≤ g.first ∧ g.first ≤ g.last ∧ g.last ≤ link.closing := by
  obtain ⟨hlt, -, hdiv⟩ := h.link_bounds ht hl
  unfold branch at hb
  split at hb
  · rename_i d hd
    obtain rfl := Option.some.inj hb
    have := hdiv d hd
    exact ⟨le_rfl, this.1, this.2.le⟩
  · obtain rfl := Option.some.inj hb
    exact ⟨le_rfl, hlt, le_rfl⟩
  · rename_i d hd
    obtain rfl := Option.some.inj hb
    have := hdiv d hd
    exact ⟨Nat.succ_le_succ this.1.le, this.2, le_rfl⟩
  · cases hb

theorem branch_within (h : R.Parsed) (ht : R.tags[i]? = some t) {link : Link}
    (hl : t.link = some link) {holds : Bool} {g : Region} (hb : branch i link holds = some g) :
    g.Within R.tags.length := by
  obtain ⟨-, hg, hlast⟩ := branch_bounds h ht hl hb
  exact ⟨hg, hlast.trans (h.link_bounds ht hl).2.1.le⟩

theorem map_return (x : Except RenderFault Chain) (last : Nat) :
    (do let out ← x
        return (out, R.behind (last + 1))) =
      (do let out ← x
          return (out, last)).map fun y : Chain × Nat => (y.1, R.behind (y.2 + 1)) := by
  rcases x with e | out <;> rfl

/-- What a tag is dispatched to, done, is what the tag gives; the walk goes on behind the last tag
that is taken up. -/
theorem tag_eq (r : Renderer) (files : Files) (b : Bindings) (ha : Agree deeper inner)
    (h : R.Parsed) (hd : g.dangling R.tags = []) (hi : g.Holds i) (ht : R.tags[i]? = some t) :
    (do let x ← (R.page.dispatch (R.template.cut g) (t.relative g.first) b).result
        let out ← (r.perform files deeper R.page t.toTag b x.1).result
        return (out, x.2)) =
      (R.tag r files inner b i t).map fun x => (x.1, R.behind (x.2 + 1)) := by
  have hstop := behind_succ ht
  rcases hc : t.closes with _ | _
  · cases hk : t.kind <;>
      simp only [Page.dispatch, tag, LinkedTag.toTag_relative, hc, hk, Bool.false_eq_true, if_false,
        Rendering.result_bind, Rendering.result_note, Rendering.ok_bind, Rendering.result_pure,
        Rendering.result_fail, Rendering.error_bind, Rendering.map_error]
    case var =>
      rw [← hstop]
      rfl
    case incl | includes =>
      rw [← hstop, ← result_paste ha]
      exact map_return _ i
    case ifBlock | unlessBlock =>
      rcases hl : t.link with _ | link
      · simp only [result_partners_none hl, block, hl]
        rw [hk]
        rfl
      · -- the branch that is shown is the stretch of a region, if one is shown at all
        obtain ⟨closing, divider, hp, hcspan, hdspan⟩ := partners_cut h hd hi ht hl
        simp only [hp, block, hl, Rendering.result_pure, Rendering.ok_bind,
          branch_cut g.first ht hcspan hdspan, conditional, hk]
        rcases hb : branch i link _ with _ | g'
        · simp only [Option.map_none, hcspan]
          rfl
        · simp only [Option.map_some, Option.elim_some, hcspan, Rendering.result_pure,
            Rendering.ok_bind]
          rw [← result_each ha h (branch_within h ht hl hb) [b]]
          exact map_return _ link.closing
    case loopBlock =>
      rcases hl : t.link with _ | link
      · simp only [result_partners_none hl, block, hl]
        rw [hk]
        rfl
      · -- so is the body of a loop, if it has a child
        obtain ⟨closing, divider, hp, hcspan, -⟩ := partners_cut h hd hi ht hl
        have hbody : (⟨t.span.stop, closing.span.start⟩ : Span) =
            (R.template.cut ⟨i + 1, link.closing⟩).range := by
          rw [← hstop, hcspan]
          rfl
        simp only [hp, block, hl, Rendering.result_pure, Rendering.ok_bind, loop, hbody]
        have hwithin : Region.Within ⟨i + 1, link.closing⟩ R.tags.length := by
          obtain ⟨hlt, hlen, -⟩ := h.link_bounds ht hl
          exact ⟨hlt, hlen.le⟩
        rcases b.loop? t.nameOrEmpty with _ | _ | ⟨child, children⟩
        · rw [hcspan]
          rfl
        · rw [hcspan]
          rfl
        · rw [hcspan]
          simp only [Rendering.result_bind, Rendering.result_note, Rendering.result_pure,
            Rendering.ok_bind, Option.getD_some, List.isEmpty_cons, Bool.false_eq_true, if_false]
          rw [← result_each ha h hwithin (child :: children)]
          exact map_return _ link.closing
  · simp only [Page.dispatch, tag, LinkedTag.toTag_relative, hc, if_true]
    rfl

/-! ## All tags of a region -/

/-- The walk over the tags of a stretch goes where the walk over the reading does. -/
theorem walk_eq (ha : Agree deeper inner) (h : R.Parsed) (hg : g.Within R.tags.length)
    (hd : g.dangling R.tags = []) : ∀ (rest : List LinkedTag) (i taken : Nat), g.first ≤ i →
      i + taken ≤ g.last → rest = (R.tags.take g.last).drop i →
        (r.walk files deeper R.page (R.template.cut g) b (R.behind (i + taken))
          (rest.map (·.relative g.first))).result = R.walk r files inner b i taken rest
  | [], i, taken, hfirst, hlast, hrest => by
    have hlen := congrArg List.length hrest
    have hle := hg.2
    rw [List.length_nil, List.length_drop, List.length_take] at hlen
    obtain rfl : taken = 0 := by omega
    obtain rfl : i = g.last := by omega
    rfl
  | t :: rest, i, taken, hfirst, hlast, hrest => by
    have hle := hg.2
    have hlen := congrArg List.length hrest
    rw [List.length_cons, List.length_drop, List.length_take] at hlen
    have hi : g.Holds i := ⟨hfirst, by omega⟩
    obtain ⟨ht, hrest'⟩ := of_drop_eq_cons hrest.symm
    rw [List.getElem?_take, if_pos (by omega)] at ht
    have hpass := start_lt_behind_iff h (show i + taken ≤ R.tags.length by omega) ht
    rcases taken with _ | taken
    · have htag := tag_eq r files b ha h hd hi ht
      rw [List.map_cons, Renderer.walk, if_neg (by rw [LinkedTag.toTag_relative, hpass]; omega)]
      calc _ = (do
            let x ← (do
              let x ← (R.page.dispatch (R.template.cut g) (t.relative g.first) b).result
              let out ← (r.perform files deeper R.page t.toTag b x.1).result
              return (out, x.2))
            let more ← (r.walk files deeper R.page (R.template.cut g) b x.2
              (rest.map (·.relative g.first))).result
            return .ofBytes (R.text i) ++ x.1 ++ more) := by
            simp only [bind_assoc, pure_bind, Rendering.result_bind, Rendering.result_pure, text,
              before_eq ht]
            rfl
        _ = _ := by
            rw [htag, walk]
            rcases hx : R.tag r files inner b i t with e | ⟨out, last⟩
            · rfl
            · obtain ⟨hle, hlt⟩ := tag_bounds h hd hi ht hx
              have ih :=
                walk_eq ha h hg hd rest (i + 1) (last - i) (by omega) (by omega) hrest'.symm
              rw [show i + 1 + (last - i) = last + 1 by omega] at ih
              simp only [Rendering.map_ok, Rendering.ok_bind, ih]
    · have ih := walk_eq ha h hg hd rest (i + 1) taken (by omega) (by omega) hrest'.symm
      rw [show i + 1 + taken = i + (taken + 1) by omega] at ih
      rw [List.map_cons, Renderer.walk, if_pos (by rw [LinkedTag.toTag_relative, hpass]; omega), ih,
        walk]

/-- So many levels down, both give the same. -/
theorem faithful_template (r : Renderer) (files : Files) : ∀ levels : Nat,
    Faithful (r.template files levels) (interpret r files levels)
  | 0, _, g, _, h, hg, hd => walk_eq .closed h hg hd _ g.first 0 le_rfl hg.1 rfl
  | levels + 1, _, g, _, h, hg, hd =>
    walk_eq (.down (faithful_template r files levels)) h hg hd _ g.first 0 le_rfl hg.1 rfl

/-- A page, rendered when so many further levels may be opened, gives what its reading gives. -/
theorem result_pageAt (r : Renderer) (files : Files) (levels : Nat) (p : Page) (b : Bindings) :
    (r.pageAt files levels p b).result =
      (ofPage p >>= fun R => interpret r files levels R R.whole b) := by
  simp only [Renderer.pageAt, Rendering.result_bind, result_parseAll]
  rcases hR : ofPage p with e | R
  · rfl
  · obtain ⟨hparsed, rfl⟩ := parsed_of_ofPage hR
    have hwhole : R.whole.Within R.tags.length := ⟨Nat.zero_le _, le_rfl⟩
    have := faithful_template r files levels R R.whole b hparsed hwhole (dangling_whole hparsed)
    rwa [cut_whole] at this

theorem result_page (r : Renderer) (files : Files) (p : Page) (b : Bindings) :
    (r.page files p b).result =
      (ofPage p >>= fun R => interpret r files r.maxDepth R R.whole b) :=
  result_pageAt r files r.maxDepth p b

theorem result_render_of_ok {source : Bytes} {t : Template} (h : Template.parse source = .ok t)
    (r : Renderer) (files : Files) (b : Bindings) : (r.render files source b).result =
      interpret r files r.maxDepth ⟨⟨source, none⟩, t.tags⟩ ⟨0, t.tags.length⟩ b := by
  have hpage : ofPage ⟨source, none⟩ = .ok ⟨⟨source, none⟩, t.tags⟩ := by
    rw [ofPage, h]
  refine (result_page r files ⟨source, none⟩ b).trans ?_
  rw [hpage]
  rfl

theorem result_render_of_error {source : Bytes} {es : List BlockFault}
    (h : Template.parse source = .error es) (r : Renderer) (files : Files) (b : Bindings) :
    (r.render files source b).result = .error (.blocks es none) := by
  have hpage : ofPage ⟨source, none⟩ = .error (.blocks es none) := by
    rw [ofPage, h]
  refine (result_page r files ⟨source, none⟩ b).trans ?_
  rw [hpage]
  rfl

end Reading

/-- Rendering a source, which reads the bodies of its blocks anew, gives what the one reading of the
source gives, and where the source cannot be read it fails with the faults of that reading. -/
theorem render_eq_interpret (r : Renderer) (files : Files) (source : Bytes) (b : Bindings) :
    (r.render files source b).result =
      match Template.parse source with
      | .ok t => Reading.interpret r files r.maxDepth ⟨⟨source, none⟩, t.tags⟩ ⟨0, t.tags.length⟩ b
      | .error es => .error (.blocks es none) := by
  have hpage : r.render files source b = r.pageAt files r.maxDepth ⟨source, none⟩ b := rfl
  rw [hpage, Reading.result_pageAt]
  unfold Reading.ofPage
  rcases Template.parse source with es | t
  · rfl
  · rfl

end Stencil
