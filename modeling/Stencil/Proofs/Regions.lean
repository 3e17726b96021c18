import Stencil.Proofs.Matching
import Stencil.Proofs.Scanning

/-!
# Parsing between two tags

A region is a run of neighbouring tags of a list, given by indices. The stretch of the source that
reaches from the tag in front of it to the tag behind it is read anew when a body is rendered; what
is found there are the tags of the region again (`scan_between`), with the links that they had in
the whole list. Only opening tags whose closing tag lies outside lose theirs, and are at fault for
it (`parseRange_region`).
-/

namespace Stencil

namespace Tag

/-- The offset behind the last of the tags, or `pos` where there is none. -/
def endOf (pos : Nat) (ts : List Tag) : Nat := (ts.getLast?.map (·.span.stop)).getD pos

/-- The offset at which the first of the tags begins, or `stop` where there is none. -/
def startOf (stop : Nat) (ts : List Tag) : Nat := (ts.head?.map (·.span.start)).getD stop

variable {source : Bytes} {pos stop : Nat}

theorem endOf_cons (pos : Nat) (t : Tag) (ts : List Tag) :
    endOf pos (t :: ts) = endOf t.span.stop ts := by
  rcases ts with _ | ⟨u, ts⟩
  · rfl
  · simp [endOf, List.getLast?_cons]

theorem endOf_append_singleton (pos : Nat) (ts : List Tag) (t : Tag) :
    endOf pos (ts ++ [t]) = t.span.stop := by
  simp [endOf]

/-- Behind the first tags, the tags behind them are found. -/
theorem scan_endOf (hstop : stop ≤ source.length) : ∀ {ts us : List Tag} {pos : Nat}, pos ≤ stop →
    scan source ⟨pos, stop⟩ = ts ++ us →
      endOf pos ts ≤ stop ∧ scan source ⟨endOf pos ts, stop⟩ = us
  | [], us, pos, hpos, h => ⟨hpos, h⟩
  | t :: ts, us, pos, hpos, h => by
    have hmem : t ∈ scan source ⟨pos, stop⟩ := by simp [h]
    rw [endOf_cons]
    exact scan_endOf hstop (scan_bounds hstop hpos hmem).2.2 (scan_tail hstop hpos h)

/-- Between two tags, the tags between them are found. -/
theorem scan_between (hstop : stop ≤ source.length) (hpos : pos ≤ stop) {ts us vs : List Tag}
    (h : scan source ⟨pos, stop⟩ = ts ++ us ++ vs) :
    scan source ⟨endOf pos ts, startOf stop vs⟩ = us := by
  rw [List.append_assoc] at h
  obtain ⟨hle, h⟩ := scan_endOf hstop hpos h
  rcases vs with _ | ⟨v, vs⟩
  · rw [List.append_nil] at h
    exact h
  · exact scan_before hstop hle h

end Tag

/-- The tags of a list from the index `first` up to, and without, the index `last`. -/
structure Region where
  first : Nat
  last : Nat
  deriving DecidableEq, Repr

namespace Region

/-- Whether the index lies in the region. -/
def Holds (g : Region) (i : Nat) : Prop := g.first ≤ i ∧ i < g.last

instance (g : Region) (i : Nat) : Decidable (g.Holds i) := inferInstanceAs (Decidable (_ ∧ _))

/-- The elements of the list that lie in the region. -/
def of {α : Type} (g : Region) (all : List α) : List α := (all.take g.last).drop g.first

/-- Opening tags in the region with their closing tag outside, each at fault for it. -/
def dangling (g : Region) (all : List LinkedTag) : List BlockFault :=
  (g.of all).filterMap fun t =>
    match t.link with
    | some link => if g.Holds link.closing then none else some (.unclosed t.kind t.span)
    | none => none

/-- Whether the region lies in a list of `n` elements. -/
def Within (g : Region) (n : Nat) : Prop := g.first ≤ g.last ∧ g.last ≤ n

variable {g : Region}

theorem length_of {α : Type} {all : List α} (h : g.Within all.length) :
    (g.of all).length = g.last - g.first := by
  have := h.2
  simp only [of, List.length_drop, List.length_take]
  omega

theorem getElem?_of {α : Type} (g : Region) (all : List α) (i : Nat) :
    (g.of all)[i]? = if g.first + i < g.last then all[g.first + i]? else none := by
  rw [of, List.getElem?_drop, List.getElem?_take]

theorem of_subset {α : Type} (g : Region) (all : List α) : g.of all ⊆ all :=
  fun _ ha => List.mem_of_mem_take (List.mem_of_mem_drop ha)

theorem take_append_of_append_drop {α : Type} {all : List α} (h : g.Within all.length) :
    all.take g.first ++ g.of all ++ all.drop g.last = all := by
  have htake : all.take g.first ++ g.of all = all.take g.last := by
    have := List.take_append_drop g.first (all.take g.last)
    rwa [List.take_take, Nat.min_eq_left h.1] at this
  rw [htake, List.take_append_drop]

theorem drop_of {α : Type} (g : Region) (all : List α) (h : g.Within all.length) (i : Nat)
    (hi : g.first + i ≤ g.last) :
    all.drop (g.first + i) = (g.of all).drop i ++ all.drop g.last := by
  conv_lhs => rw [← List.take_append_drop g.last all]
  have hlast := h.2
  rw [List.drop_append_of_le_length (by rw [List.length_take]; omega), of, List.drop_drop]

/-- An opening tag of the region keeps its link, counted from the front of the region, if its
closing tag lies in the region, and has none there otherwise. -/
theorem findLink_of {tags : List Tag} (hg : g.Within tags.length) {k : Nat}
    (hk : g.first + k < g.last) {t : Tag} {link : Link}
    (h : t.findLink (g.first + k + 1) 1 none (tags.drop (g.first + k + 1)) = .ok link) :
    t.findLink (k + 1) 1 none ((g.of tags).drop (k + 1)) =
      if g.Holds link.closing then .ok (link.relative g.first)
      else .error (.unclosed t.kind t.span) := by
  have hshift := Tag.findLink_shift t g.first (k + 1) 1 none (tags.drop (g.first + k + 1))
  rw [show k + 1 + g.first = g.first + k + 1 by omega, Option.map_none, h] at hshift
  rcases h0 : t.findLink (k + 1) 1 none (tags.drop (g.first + k + 1)) with e | link0
  · rw [h0] at hshift
    cases hshift
  · rw [h0] at hshift
    obtain rfl := Except.ok.inj hshift
    rw [show g.first + k + 1 = g.first + (k + 1) by omega,
      drop_of g tags hg (k + 1) (by omega)] at h0
    rw [Tag.findLink_of_append h0, Link.relative_shift, List.length_drop, length_of hg]
    have hiff : link0.closing < k + 1 + (g.last - g.first - (k + 1)) ↔
        g.Holds (link0.shift g.first).closing := by
      simp only [Holds, Link.shift]
      omega
    rw [if_congr hiff rfl rfl]

/-- What matching finds in a region, told from the links of the whole list. -/
theorem links_of {tags : List Tag} (h : Tag.blockFaults tags = []) (hg : g.Within tags.length) :
    Tag.links (g.of tags) = (g.of (LinkedTag.ofTags tags)).map fun t => t.link.map fun link =>
      if g.Holds link.closing then .ok (link.relative g.first)
      else .error (.unclosed t.kind t.span) := by
  refine List.ext_getElem? fun k => ?_
  rw [Tag.getElem?_links, List.getElem?_map, getElem?_of, getElem?_of]
  split_ifs with hk
  · rw [LinkedTag.getElem?_ofTags]
    rcases ht : tags[g.first + k]? with _ | t
    · rfl
    · simp only [Option.map_some]
      split_ifs with ho
      · obtain ⟨link, hlink⟩ := Tag.findLink_of_blockFaults_nil h ht ho
        rw [findLink_of hg hk hlink, hlink]
        rfl
      · rfl
  · rfl

theorem blockFaults_of {tags : List Tag} (h : Tag.blockFaults tags = [])
    (hg : g.Within tags.length) :
    Tag.blockFaults (g.of tags) = g.dangling (LinkedTag.ofTags tags) := by
  rw [Tag.blockFaults, links_of h hg, List.filterMap_map, dangling]
  refine congrArg (List.filterMap · (g.of (LinkedTag.ofTags tags))) (funext fun t => ?_)
  rcases ht : t.link with _ | link
  · simp [ht]
  · simp only [Function.comp_apply, ht, Option.map_some]
    split_ifs <;> rfl

theorem of_map {α β : Type} (g : Region) (f : α → β) (all : List α) :
    g.of (all.map f) = (g.of all).map f := by
  rw [of, of, List.map_drop, List.map_take]

end Region

namespace LinkedTag

/-- The tag in the list without the first `n`. -/
def relative (n : Nat) (t : LinkedTag) : LinkedTag := { t with link := t.link.map (·.relative n) }

@[simp] theorem toTag_relative (n : Nat) (t : LinkedTag) : (t.relative n).toTag = t.toTag := rfl

@[simp] theorem link_relative (n : Nat) (t : LinkedTag) :
    (t.relative n).link = t.link.map (·.relative n) := rfl

theorem eq_of_map_eq : ∀ {ts us : List LinkedTag}, ts.map (·.toTag) = us.map (·.toTag) →
    ts.map (·.link) = us.map (·.link) → ts = us
  | [], [], _, _ => rfl
  | [], _ :: _, ht, _ => by simp at ht
  | _ :: _, [], ht, _ => by simp at ht
  | ⟨t, l⟩ :: ts, ⟨u, m⟩ :: us, ht, hl => by
    obtain ⟨rfl, hts⟩ := List.cons.inj ht
    obtain ⟨rfl, hls⟩ := List.cons.inj hl
    rw [eq_of_map_eq hts hls]

end LinkedTag

namespace Region

variable {g : Region}

theorem ofTags_of {tags : List Tag} (h : Tag.blockFaults tags = []) (hg : g.Within tags.length)
    (hd : g.dangling (LinkedTag.ofTags tags) = []) :
    LinkedTag.ofTags (g.of tags) = (g.of (LinkedTag.ofTags tags)).map (·.relative g.first) := by
  refine LinkedTag.eq_of_map_eq ?_ ?_
  · rw [LinkedTag.map_toTag_ofTags, List.map_map]
    conv_lhs => rw [← LinkedTag.map_toTag_ofTags tags, of_map]
    rfl
  · rw [LinkedTag.map_link_ofTags, links_of h hg, List.map_map, List.map_map]
    refine List.map_congr_left fun t ht => ?_
    have hin := List.filterMap_eq_nil_iff.1 hd t ht
    rcases hl : t.link with _ | link
    · simp [LinkedTag.relative, hl]
    · rw [hl] at hin
      have hin : g.Holds link.closing := by
        by_contra hout
        simp [hout] at hin
      simp [LinkedTag.relative, hl, hin, Except.toOption]

end Region

/-- A reading that succeeds has found no fault. -/
theorem Template.ofTags_eq_ok {range : Span} {tags : List Tag} {t : Template}
    (h : ofTags range tags = .ok t) :
    t.range = range ∧ t.tags = LinkedTag.ofTags tags ∧ Tag.blockFaults tags = [] := by
  unfold ofTags at h
  split at h
  · obtain rfl := Except.ok.inj h
    exact ⟨rfl, rfl, ‹_›⟩
  · cases h

/-- The stretch of a region: what reading it anew gives where no opening tag dangles. -/
def Template.cut (t : Template) (g : Region) : Template where
  range := ⟨Tag.endOf t.range.start ((t.tags.take g.first).map (·.toTag)),
    Tag.startOf t.range.stop ((t.tags.drop g.last).map (·.toTag))⟩
  tags := (g.of t.tags).map (·.relative g.first)

theorem Template.scan_cut {source : Bytes} {pos stop : Nat} {t : Template} {g : Region}
    (hstop : stop ≤ source.length) (hpos : pos ≤ stop)
    (h : parseRange source ⟨pos, stop⟩ = .ok t) (hg : g.Within t.tags.length) :
    Tag.scan source (t.cut g).range = g.of (Tag.scan source ⟨pos, stop⟩) := by
  obtain ⟨hrange, htags, -⟩ := ofTags_eq_ok h
  rw [htags, LinkedTag.length_ofTags] at hg
  simp only [cut, hrange, htags, List.map_take, List.map_drop, LinkedTag.map_toTag_ofTags]
  exact Tag.scan_between hstop hpos (Region.take_append_of_append_drop hg).symm

/-- A stretch between two tags, read anew, has the tags of the region and their links; and for each
of its opening tags whose closing tag lies outside it has a fault instead, and no other. -/
theorem Template.parseRange_region {source : Bytes} {pos stop : Nat} {t : Template} {g : Region}
    (hstop : stop ≤ source.length) (hpos : pos ≤ stop)
    (h : parseRange source ⟨pos, stop⟩ = .ok t) (hg : g.Within t.tags.length) :
    parseRange source (t.cut g).range =
      match g.dangling t.tags with
      | [] => .ok (t.cut g)
      | e :: es => .error (e :: es) := by
  have hscan := scan_cut hstop hpos h hg
  obtain ⟨-, htags, hf⟩ := ofTags_eq_ok h
  rw [htags, LinkedTag.length_ofTags] at hg
  have hlinked := Region.ofTags_of hf hg
  rw [← htags] at hlinked
  rw [parseRange, hscan, ofTags, Region.blockFaults_of hf hg, ← htags]
  rcases hd : g.dangling t.tags with _ | ⟨e, es⟩
  · exact congrArg (fun tags => Except.ok (Template.mk (t.cut g).range tags)) (hlinked hd)
  · rfl

end Stencil
