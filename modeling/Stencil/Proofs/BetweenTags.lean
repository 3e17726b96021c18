import Mathlib.Data.List.Forall2
import Stencil.Proofs.Regions

/-!
# What lies between two tags

A stretch of a source is read, whatever its ends are, and two of its tags are picked. What lies
between them is then read alone: the tags are those of the outer reading, and so are the links,
counted from the first tag between. The only thing that can go wrong is that a block opens there and
closes at the second of the two tags or behind it, and each block that does so is at fault for that
(`parse_between`).
-/

namespace Stencil

theorem Link.shift_relative {n : Nat} {l : Link} (hc : n ≤ l.closing)
    (hd : ∀ d, l.divider = some d → n ≤ d) : (l.relative n).shift n = l := by
  obtain ⟨c, _ | d⟩ := l
  · simp [relative, shift, Nat.sub_add_cancel hc]
  · simp [relative, shift, Nat.sub_add_cancel hc, Nat.sub_add_cancel (hd d rfl)]

namespace Template

variable {source : Bytes} {range : Span} {t : Template} {i j : Nat} {u v w : LinkedTag}

/-- The tags between two indices. -/
def between (t : Template) (i j : Nat) : List LinkedTag := (t.tags.take j).drop (i + 1)

/-- The blocks that open between two indices and close at the second one or behind it. -/
def cutOff (t : Template) (i j : Nat) : List LinkedTag :=
  (t.between i j).filter fun w => w.link.any (j ≤ ·.closing)

theorem mem_tags_of_between (hw : w ∈ t.between i j) : w ∈ t.tags :=
  List.mem_of_mem_take (List.mem_of_mem_drop hw)

/-- A stretch that reads does so with its ends moved into the source. -/
theorem parseRange_clamp (h : parseRange source range = .ok t) :
    ∃ pos stop, pos ≤ stop ∧ stop ≤ source.length ∧
      parseRange source ⟨pos, stop⟩ = .ok ⟨⟨pos, stop⟩, t.tags⟩ := by
  refine ⟨min range.start (min range.stop source.length), min range.stop source.length,
    Nat.min_le_right _ _, Nat.min_le_right _ _, ?_⟩
  obtain ⟨-, htags, hf⟩ := ofTags_eq_ok h
  rw [parseRange, ← Tag.scan_clamp, ofTags, hf, htags]

/-- The region between two indices of a template is the stretch between their tags. -/
theorem cut_between (hu : t.tags[i]? = some u) (hv : t.tags[j]? = some v) :
    t.cut ⟨i + 1, j⟩ =
      ⟨⟨u.span.stop, v.span.start⟩, (t.between i j).map (·.relative (i + 1))⟩ := by
  obtain ⟨hj, rfl⟩ := List.getElem?_eq_some_iff.1 hv
  have hstop : Tag.endOf t.range.start ((t.tags.take (i + 1)).map (·.toTag)) = u.span.stop := by
    rw [List.take_add_one, hu]
    simp [Tag.endOf_append_singleton]
  rw [cut, hstop, List.drop_eq_getElem_cons hj]
  rfl

/-- The links of the tags between two others lead on, so that none of them leads in front of the
first tag between. -/
theorem link_of_between (h : parseRange source range = .ok t) (hw : w ∈ t.between i j)
    {link : Link} (hl : w.link = some link) :
    i + 1 ≤ link.closing ∧ ∀ d, link.divider = some d → i + 1 ≤ d := by
  obtain ⟨k, hk⟩ := List.mem_iff_getElem?.1 hw
  rw [between, List.getElem?_drop, List.getElem?_take] at hk
  split_ifs at hk
  rw [(ofTags_eq_ok h).2.1] at hk
  obtain ⟨hclosing, -, hdivider⟩ := LinkedTag.link_bounds hk hl
  refine ⟨by omega, fun d hd => ?_⟩
  have := (hdivider d hd).1
  omega

theorem dangling_between (h : parseRange source range = .ok t) :
    Region.dangling ⟨i + 1, j⟩ t.tags =
      (t.cutOff i j).map fun w => .unclosed w.kind w.span := by
  rw [cutOff, ← List.filterMap_eq_map, List.filterMap_filter]
  refine List.filterMap_congr fun w hw => ?_
  rcases hl : w.link with _ | link
  · rfl
  · have hle := (link_of_between h hw hl).1
    by_cases hj : j ≤ link.closing
    · have hout : ¬ (⟨i + 1, j⟩ : Region).Holds link.closing := fun hin =>
        absurd hin.2 (Nat.not_lt_of_le hj)
      simp [hj, hout]
    · have hin : (⟨i + 1, j⟩ : Region).Holds link.closing := ⟨hle, Nat.lt_of_not_le hj⟩
      simp [hj, hin]

theorem cutOff_eq_nil_iff (h : parseRange source range = .ok t) : t.cutOff i j = [] ↔
    ∀ w ∈ t.between i j, w.opensBlock → ∃ link, w.link = some link ∧ link.closing < j := by
  obtain ⟨-, htags, hf⟩ := ofTags_eq_ok h
  rw [cutOff, List.filter_eq_nil_iff]
  refine forall₂_congr fun w hw => ?_
  rw [LinkedTag.opensBlock_iff hf (htags ▸ mem_tags_of_between hw)]
  rcases w.link with _ | link <;> simp

/-- Between two tags, the tags between them are found, and they are read with their links unless one
of their blocks is cut off. -/
theorem parseRange_between (h : parseRange source range = .ok t) (hij : i < j)
    (hu : t.tags[i]? = some u) (hv : t.tags[j]? = some v) :
    let stretch : Span := ⟨u.span.stop, v.span.start⟩
    Tag.scan source stretch = (t.between i j).map (·.toTag) ∧
      parseRange source stretch =
        match (t.cutOff i j).map fun w => BlockFault.unclosed w.kind w.span with
        | [] => .ok ⟨stretch, (t.between i j).map (·.relative (i + 1))⟩
        | e :: es => .error (e :: es) := by
  intro stretch
  obtain ⟨pos, stop, hpos, hstop, hread⟩ := parseRange_clamp h
  have hg : (⟨i + 1, j⟩ : Region).Within t.tags.length :=
    ⟨hij, (List.getElem?_eq_some_iff.1 hv).1.le⟩
  have hcut : Template.cut ⟨⟨pos, stop⟩, t.tags⟩ ⟨i + 1, j⟩ =
      ⟨stretch, (t.between i j).map (·.relative (i + 1))⟩ := cut_between hu hv
  have hscan := scan_cut hstop hpos hread hg
  have hparse := parseRange_region hstop hpos hread hg
  rw [hcut] at hscan hparse
  rw [dangling_between hread] at hparse
  refine ⟨?_, hparse⟩
  rw [hscan, ← LinkedTag.map_toTag_ofTags (Tag.scan _ _), ← (ofTags_eq_ok hread).2.1, Region.of_map]
  rfl

/-- What lies between two tags of a stretch that reads has the tags between them. It reads if and
only if each block that opens there closes in front of the second tag; then every link leads to the
same tag as in the whole. Otherwise the blocks that do not are at fault for it, in order, and
nothing else is wrong. -/
theorem parse_between (h : parseRange source range = .ok t) (hij : i < j)
    (hu : t.tags[i]? = some u) (hv : t.tags[j]? = some v) :
    let stretch : Span := ⟨u.span.stop, v.span.start⟩
    Tag.scan source stretch = (t.between i j).map (·.toTag) ∧
      ((∃ s, parseRange source stretch = .ok s) ↔ ∀ w ∈ t.between i j, w.opensBlock →
        ∃ link, w.link = some link ∧ link.closing < j) ∧
      (∀ s, parseRange source stretch = .ok s → s.range = stretch ∧
        List.Forall₂ (fun x w => x.toTag = w.toTag ∧ x.link.map (·.shift (i + 1)) = w.link)
          s.tags (t.between i j)) ∧
      ∀ es, parseRange source stretch = .error es →
        es = (t.cutOff i j).map fun w => .unclosed w.kind w.span := by
  intro stretch
  obtain ⟨hscan, hparse⟩ := parseRange_between h hij hu hv
  refine ⟨hscan, ?_⟩
  rw [← cutOff_eq_nil_iff h, hparse]
  rcases hcut : t.cutOff i j with _ | ⟨w, ws⟩
  · refine ⟨by simp, ?_, nofun⟩
    rintro s ⟨⟩
    refine ⟨rfl, List.forall₂_map_left_iff.2 (List.forall₂_same.2 fun w hw => ⟨rfl, ?_⟩)⟩
    rcases hl : w.link with _ | link
    · simp [hl]
    · obtain ⟨hclosing, hdivider⟩ := link_of_between h hw hl
      simp [hl, Link.shift_relative hclosing hdivider]
  · refine ⟨by simp, nofun, ?_⟩
    rintro es ⟨⟩
    rfl

/-- A loop that crosses the closing tag of the conditional block around it: up to that tag it is cut
off, and up to a tag behind its own closing tag it is not. -/
theorem parse_between_crossing :
    let source : Bytes := .ofString <| "<TMPL_IF name=\"a\"><TMPL_ELSE><TMPL_LOOP name=\"b\">" ++
      "</TMPL_IF></TMPL_LOOP><TMPL_VAR name=\"c\">"
    let t : Template := ⟨⟨0, 1000⟩,
      [⟨⟨.ifBlock, ⟨0, 18⟩, some "a", false⟩, some ⟨3, some 1⟩⟩,
        ⟨⟨.elseMark, ⟨18, 29⟩, none, false⟩, none⟩,
        ⟨⟨.loopBlock, ⟨29, 49⟩, some "b", false⟩, some ⟨4, none⟩⟩,
        ⟨⟨.ifBlock, ⟨49, 59⟩, none, true⟩, none⟩,
        ⟨⟨.loopBlock, ⟨59, 71⟩, none, true⟩, none⟩,
        ⟨⟨.var, ⟨71, 90⟩, some "c", false⟩, none⟩]⟩
    parseRange source ⟨0, 1000⟩ = .ok t ∧
      parseRange source ⟨29, 49⟩ = .error [.unclosed .loopBlock ⟨29, 49⟩] ∧
      ∃ s, parseRange source ⟨29, 71⟩ = .ok s := by
  intro source t
  have h : parseRange source ⟨0, 1000⟩ = .ok t := by decide +kernel
  obtain ⟨-, hcrossing, -, hfaults⟩ := parse_between h (show 1 < 3 by decide) rfl rfl
  obtain ⟨-, hbehind, -⟩ := parse_between h (show 1 < 5 by decide) rfl rfl
  refine ⟨h, ?_, hbehind.2 (by decide)⟩
  rcases hs : parseRange source ⟨29, 49⟩ with es | s
  · exact congrArg Except.error (hfaults es hs)
  · exact absurd (hcrossing.1 ⟨s, hs⟩) (by decide)

end Template

end Stencil
