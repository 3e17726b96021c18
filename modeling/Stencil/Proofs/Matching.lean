import Mathlib.Tactic.SplitIfs
import Stencil.Template

/-!
# The search for a block's partners

What each next tag does to the search: a tag of the opener's own kind moves the counter, an else
counts only where one block is open, and every other tag is passed over.

The search does not look behind the partner it finds. So where the list is cut, an opening tag keeps
its link if the closing tag is still there, and has none otherwise (`findLink_of_append`): a second
else that would be at fault was none before.
-/

namespace Stencil

/-- Where a list goes on, the first element has its index. -/
theorem of_drop_eq_cons {α : Type} {all rest : List α} {i : Nat} {a : α}
    (h : all.drop i = a :: rest) : all[i]? = some a ∧ all.drop (i + 1) = rest := by
  constructor
  · have h0 := congrArg (·[0]?) h
    simpa only [List.getElem?_drop, List.getElem?_cons_zero, Nat.add_zero] using h0
  · rw [← List.drop_drop, h]
    rfl

namespace Tag

variable {o t : Tag} {i d : Nat} {divider : Option (Nat × Span)} {rest : List Tag}

theorem length_linksFrom : ∀ (i : Nat) (tags : List Tag), (linksFrom i tags).length = tags.length
  | _, [] => rfl
  | i, _ :: rest => by simp [linksFrom, length_linksFrom (i + 1) rest]

theorem length_links (tags : List Tag) : (links tags).length = tags.length :=
  length_linksFrom 0 tags

/-- Tags of other kinds are passed over, and so is an else that is not the block's own. -/
theorem findLink_of_ne (hk : t.kind ≠ o.kind) (hd : 0 < d)
    (he : ¬ (d = 1 ∧ t.kind = .elseMark ∧ o.kind.takesElse)) :
    o.findLink i d divider (t :: rest) = o.findLink (i + 1) d divider rest := by
  simp only [findLink, depthAfter, if_neg hk]
  rw [if_neg (by omega), if_neg he]

theorem findLink_of_opens (hk : t.kind = o.kind) (hc : t.closes = false) (hd : 0 < d) :
    o.findLink i d divider (t :: rest) = o.findLink (i + 1) (d + 1) divider rest := by
  simp only [findLink, depthAfter, if_pos hk, hc]
  simp only [Bool.false_eq_true, if_false]
  rw [if_neg (by omega), if_neg (by omega)]

/-- The closing tag that brings the counter to zero is the partner. -/
theorem findLink_of_closes (hk : t.kind = o.kind) (hc : t.closes = true) :
    o.findLink i 1 divider (t :: rest) = .ok ⟨i, divider.map (·.1)⟩ := by
  simp [findLink, depthAfter, hk, hc]

/-- A closing tag of an inner block lowers the counter. -/
theorem findLink_of_closes_inner (hk : t.kind = o.kind) (hc : t.closes = true) :
    o.findLink i (d + 2) divider (t :: rest) = o.findLink (i + 1) (d + 1) divider rest := by
  have he : ¬ (d + 1 = 1 ∧ t.kind = .elseMark ∧ o.kind.takesElse) := by
    rintro ⟨-, h, ho⟩
    rw [← hk, h] at ho
    cases ho
  simp only [findLink, depthAfter, if_pos hk, hc, if_true]
  rw [show d + 2 - 1 = d + 1 by omega, if_neg (by omega), if_neg he]

theorem kind_ne_of_else (ht : t.kind = .elseMark) (ho : o.kind.takesElse) : t.kind ≠ o.kind := by
  intro h
  rw [← h, ht] at ho
  cases ho

/-- The first else of the block is recorded. -/
theorem findLink_of_else (ht : t.kind = .elseMark) (ho : o.kind.takesElse) :
    o.findLink i 1 none (t :: rest) = o.findLink (i + 1) 1 (some (i, t.span)) rest := by
  simp only [findLink, depthAfter, if_neg (kind_ne_of_else ht ho)]
  simp [ht, ho]

/-- The second else of the block ends the search. -/
theorem findLink_of_else_else (ht : t.kind = .elseMark) (ho : o.kind.takesElse) {n : Nat}
    {first : Span} : o.findLink i 1 (some (n, first)) (t :: rest)
      = .error (.secondElse o.kind o.span first t.span) := by
  simp only [findLink, depthAfter, if_neg (kind_ne_of_else ht ho)]
  simp [ht, ho]

/-! ## Links are indices into the list -/

theorem findLink_bounds {link : Link} : ∀ {i d : Nat} {divider : Option (Nat × Span)}
    {rest : List Tag}, o.findLink i d divider rest = .ok link →
      i ≤ link.closing ∧ link.closing < i + rest.length ∧
        ∀ m, link.divider = some m → divider.map (·.1) = some m ∨ i ≤ m ∧ m < link.closing
  | i, d, divider, [], h => by simp [findLink] at h
  | i, d, divider, t :: rest, h => by
    simp only [findLink] at h
    rw [List.length_cons]
    split_ifs at h with h0 h1
    · obtain rfl := Except.ok.inj h
      exact ⟨Nat.le_refl i, by simp only []; omega, fun m hm => .inl hm⟩
    · rcases divider with _ | ⟨n, first⟩
      · obtain ⟨h1, h2, h3⟩ := findLink_bounds h
        refine ⟨by omega, by omega, fun m hm => .inr ?_⟩
        rcases h3 m hm with h | h
        · obtain rfl : i = m := by simpa using h
          omega
        · omega
      · cases h
    · obtain ⟨h1, h2, h3⟩ := findLink_bounds h
      refine ⟨by omega, by omega, fun m hm => ?_⟩
      rcases h3 m hm with h | h
      · exact .inl h
      · exact .inr (by omega)

/-- Where the tags behind a place are cut off, the link stays if its closing tag does. -/
theorem findLink_of_append {link : Link} {post : List Tag} : ∀ {i d : Nat}
    {divider : Option (Nat × Span)} {pre : List Tag},
    o.findLink i d divider (pre ++ post) = .ok link → o.findLink i d divider pre =
      if link.closing < i + pre.length then .ok link else .error (.unclosed o.kind o.span)
  | i, d, divider, [], h => by
    have := (findLink_bounds h).1
    rw [if_neg (by simpa using this), findLink]
  | i, d, divider, t :: pre, h => by
    rw [List.cons_append] at h
    simp only [findLink] at h ⊢
    rw [List.length_cons, show i + (pre.length + 1) = i + 1 + pre.length by omega]
    by_cases h0 : o.depthAfter t d = 0
    · rw [if_pos h0] at h ⊢
      obtain rfl := Except.ok.inj h
      rw [if_pos (by simp only []; omega)]
    · rw [if_neg h0] at h ⊢
      by_cases h1 : o.depthAfter t d = 1 ∧ t.kind = .elseMark ∧ o.kind.takesElse
      · rw [if_pos h1] at h ⊢
        rcases divider with _ | ⟨n, first⟩
        · exact findLink_of_append h
        · cases h
      · rw [if_neg h1] at h ⊢
        exact findLink_of_append h

end Tag

namespace Link

/-- The link in the list of tags that has `n` more tags in front. -/
def shift (n : Nat) (l : Link) : Link := ⟨l.closing + n, l.divider.map (· + n)⟩

/-- The link in the list of tags without the first `n`. -/
def relative (n : Nat) (l : Link) : Link := ⟨l.closing - n, l.divider.map (· - n)⟩

theorem relative_shift (n : Nat) (l : Link) : (l.shift n).relative n = l := by
  obtain ⟨c, _ | d⟩ := l <;> simp [shift, relative]

end Link

namespace Tag

theorem findLink_shift (o : Tag) (n : Nat) : ∀ (i d : Nat) (divider : Option (Nat × Span))
    (rest : List Tag), o.findLink (i + n) d (divider.map fun x => (x.1 + n, x.2)) rest
      = (o.findLink i d divider rest).map (Link.shift n)
  | _, _, _, [] => rfl
  | i, d, divider, t :: rest => by
    have ih := fun divider => findLink_shift o n (i + 1) (o.depthAfter t d) divider rest
    rw [show i + 1 + n = i + n + 1 by omega] at ih
    simp only [findLink]
    split_ifs
    · simp [Except.map, Link.shift, Function.comp_def]
    · rcases divider with _ | ⟨m, first⟩
      · exact ih (some (i, t.span))
      · rfl
    · exact ih divider

/-! ## What matching finds for the tag at an index -/

theorem getElem?_linksFrom : ∀ (j : Nat) (tags : List Tag) (i : Nat), (linksFrom j tags)[i]?
    = tags[i]?.map fun t =>
      if t.opensBlock then some (t.findLink (j + i + 1) 1 none (tags.drop (i + 1))) else none
  | _, [], _ => rfl
  | _, _ :: _, 0 => rfl
  | j, _ :: rest, i + 1 => by
    rw [linksFrom, List.getElem?_cons_succ, getElem?_linksFrom (j + 1) rest i,
      List.getElem?_cons_succ, List.drop_succ_cons, show j + 1 + i + 1 = j + (i + 1) + 1 by omega]

theorem getElem?_links (tags : List Tag) (i : Nat) : (links tags)[i]? = tags[i]?.map fun t =>
    if t.opensBlock then some (t.findLink (i + 1) 1 none (tags.drop (i + 1))) else none := by
  rw [links, getElem?_linksFrom, Nat.zero_add]

/-- Where no block is at fault, every opening block tag has a link. -/
theorem findLink_of_blockFaults_nil {tags : List Tag} (h : blockFaults tags = []) {i : Nat}
    {t : Tag} (ht : tags[i]? = some t) (ho : t.opensBlock) :
    ∃ link, t.findLink (i + 1) 1 none (tags.drop (i + 1)) = .ok link := by
  have hl := getElem?_links tags i
  rw [ht, Option.map_some, if_pos ho] at hl
  have hmem := List.mem_of_getElem? hl
  rcases hf : t.findLink (i + 1) 1 none (tags.drop (i + 1)) with e | link
  · rw [hf] at hmem
    have := List.filterMap_eq_nil_iff.1 h _ hmem
    cases this
  · exact ⟨link, rfl⟩

theorem blockFaults_eq_nil_iff (tags : List Tag) : blockFaults tags = [] ↔
    ∀ (i : Nat) (t : Tag), tags[i]? = some t → t.opensBlock →
      ∃ link, t.findLink (i + 1) 1 none (tags.drop (i + 1)) = .ok link := by
  refine ⟨fun h i t ht ho => findLink_of_blockFaults_nil h ht ho, fun h => ?_⟩
  rw [blockFaults, List.filterMap_eq_nil_iff]
  intro found hfound
  obtain ⟨i, hi⟩ := List.mem_iff_getElem?.1 hfound
  rw [getElem?_links, Option.map_eq_some_iff] at hi
  obtain ⟨t, ht, rfl⟩ := hi
  split_ifs with ho
  · obtain ⟨link, hlink⟩ := h i t ht ho
    rw [hlink]
  · rfl

end Tag

namespace LinkedTag

/-- Linking leaves the tags themselves as they are. -/
theorem map_toTag_ofTags (tags : List Tag) : (ofTags tags).map (·.toTag) = tags :=
  List.ext_getElem (by simp [ofTags, Tag.length_links]) fun i h h' => by simp [ofTags]

theorem map_link_ofTags (tags : List Tag) :
    (ofTags tags).map (·.link) = (Tag.links tags).map (·.bind (·.toOption)) :=
  List.ext_getElem (by simp [ofTags, Tag.length_links]) fun i h h' => by simp [ofTags]

theorem getElem?_ofTags (tags : List Tag) (i : Nat) : (ofTags tags)[i]? = tags[i]?.map fun t =>
    { t with
      link :=
        if t.opensBlock then (t.findLink (i + 1) 1 none (tags.drop (i + 1))).toOption
        else none } := by
  rw [ofTags, List.getElem?_zipWith, Tag.getElem?_links]
  rcases tags[i]? with _ | t
  · rfl
  · simp only [Option.map_some]
    split_ifs <;> rfl

/-- Where no block is at fault, the tags with a link are those that open a block. -/
theorem opensBlock_iff {tags : List Tag} (h : Tag.blockFaults tags = []) {w : LinkedTag}
    (hw : w ∈ ofTags tags) : w.opensBlock ↔ ∃ link, w.link = some link := by
  obtain ⟨i, hi⟩ := List.mem_iff_getElem?.1 hw
  rw [getElem?_ofTags, Option.map_eq_some_iff] at hi
  obtain ⟨t, ht, rfl⟩ := hi
  simp only
  by_cases ho : t.opensBlock
  · obtain ⟨link, hlink⟩ := Tag.findLink_of_blockFaults_nil h ht ho
    simp [ho, hlink, Except.toOption]
  · simp [ho]

theorem length_ofTags (tags : List Tag) : (ofTags tags).length = tags.length := by
  simp [ofTags, Tag.length_links]

/-- Links lead on, to tags of the same list, the else before the closing tag. -/
theorem link_bounds {tags : List Tag} {i : Nat} {t : LinkedTag} (ht : (ofTags tags)[i]? = some t)
    {link : Link} (hl : t.link = some link) : i < link.closing ∧ link.closing < tags.length ∧
      ∀ d, link.divider = some d → i < d ∧ d < link.closing := by
  rw [getElem?_ofTags, Option.map_eq_some_iff] at ht
  obtain ⟨u, hu, rfl⟩ := ht
  have hi := (List.getElem?_eq_some_iff.1 hu).1
  simp only at hl
  split_ifs at hl
  · rcases hf : u.findLink (i + 1) 1 none (tags.drop (i + 1)) with e | l
    · rw [hf] at hl
      cases hl
    · rw [hf] at hl
      obtain rfl := Option.some.inj hl
      obtain ⟨hfirst, hlast, hdiv⟩ := Tag.findLink_bounds hf
      rw [List.length_drop] at hlast
      refine ⟨by omega, by omega, fun d hd => ?_⟩
      rcases hdiv d hd with hd | hd
      · cases hd
      · omega

end LinkedTag

end Stencil
