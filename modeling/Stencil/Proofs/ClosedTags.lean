import Stencil.Proofs.Copies

/-!
# Tags that are closed among themselves

A search that comes to the opening tag of a block of its own kind goes on behind the closing tag of
that block, as deep as it was (`findLink_over`). So blocks of one kind do not cross, and a search
passes over a list in which every block is opened and closed and no else stands
(`SelfContained.findLink_append`). Where such a list stands in the place of a tag that opens and
closes nothing, the links around it stay (`copies_spliced`).
-/

namespace Stencil

namespace Tag

variable {o u u' t c : Tag} {tags xs ys zs rest : List Tag} {i j k d e n : Nat}
  {divider divider' : Option (Nat × Span)} {link link' : Link}

/-! ## Blocks of one kind -/

/-- The search of an opening tag, deeper by the blocks that are open around it, goes on behind the
partner. -/
theorem findLink_over (hk : u.kind = o.kind) (hd : 0 < d) (j : Nat) : ∀ {i e : Nat}
    {divider : Option (Nat × Span)} {xs : List Tag}, u.findLink i (e + 1) divider xs = .ok link →
      o.findLink (j + i) (e + 1 + d) divider' (xs ++ rest) =
        o.findLink (j + link.closing + 1) d divider' (xs.drop (link.closing + 1 - i) ++ rest)
  | i, e, divider, [], h => by cases h
  | i, e, divider, t :: xs, h => by
    have later : ∀ {e' divider}, u.findLink (i + 1) (e' + 1) divider xs = .ok link →
        o.findLink (j + i + 1) (e' + 1 + d) divider' (xs ++ rest) =
          o.findLink (j + link.closing + 1) d divider'
            ((t :: xs).drop (link.closing + 1 - i) ++ rest) := by
      intro e' divider h
      have hle := (findLink_bounds h).1
      rw [Nat.add_assoc j, findLink_over hk hd j h,
        show link.closing + 1 - i = link.closing + 1 - (i + 1) + 1 by omega, List.drop_succ_cons]
    rw [List.cons_append]
    by_cases ht : t.kind = u.kind
    · by_cases hc : t.closes
      · rcases e with _ | e
        · rw [findLink_of_closes ht hc] at h
          obtain rfl := Except.ok.inj h
          obtain ⟨d, rfl⟩ := Nat.exists_eq_add_one.2 hd
          rw [show 0 + 1 + (d + 1) = d + 2 by omega, findLink_of_closes_inner (ht.trans hk) hc,
            Nat.add_sub_cancel_left]
          rfl
        · rw [findLink_of_closes_inner ht hc] at h
          obtain ⟨d, rfl⟩ := Nat.exists_eq_add_one.2 hd
          rw [show e + 1 + 1 + (d + 1) = e + 1 + d + 2 by omega,
            findLink_of_closes_inner (ht.trans hk) hc]
          exact later h
      · have hc := Bool.eq_false_iff.2 hc
        rw [findLink_of_opens ht hc (Nat.succ_pos e)] at h
        rw [findLink_of_opens (ht.trans hk) hc (by omega), Nat.add_right_comm (e + 1)]
        exact later h
    · -- an else of the inner block is not one of the outer block
      have hpass : o.findLink (j + i) (e + 1 + d) divider' (t :: (xs ++ rest)) =
          o.findLink (j + i + 1) (e + 1 + d) divider' (xs ++ rest) :=
        findLink_of_ne (hk ▸ ht) (by omega) (by omega)
      rw [hpass]
      simp only [findLink, depthAfter, if_neg ht, Nat.succ_ne_zero, if_false] at h
      split_ifs at h
      · rcases divider with _ | x
        · exact later h
        · cases h
      · exact later h

/-- Before it comes to the partner, the search goes from tag to tag. -/
theorem findLink_inside : ∀ {n i e : Nat} {divider : Option (Nat × Span)} {xs : List Tag},
    o.findLink i (e + 1) divider xs = .ok link → i + n ≤ link.closing →
      ∃ e' divider', o.findLink (i + n) (e' + 1) divider' (xs.drop n) = .ok link
  | 0, i, e, divider, xs, h, _ => ⟨e, divider, h⟩
  | n + 1, i, e, divider, [], h, _ => by cases h
  | n + 1, i, e, divider, t :: xs, h, hn => by
    rw [List.drop_succ_cons, show i + (n + 1) = i + 1 + n by omega] at *
    simp only [findLink] at h
    rcases hdepth : o.depthAfter t (e + 1) with _ | e'
    · rw [hdepth, if_pos rfl] at h
      obtain rfl := Except.ok.inj h
      simp only at hn
      omega
    · rw [hdepth, if_neg (Nat.succ_ne_zero e')] at h
      split_ifs at h
      · rcases divider with _ | x
        · exact findLink_inside h hn
        · cases h
      · exact findLink_inside h hn

/-- A block that opens in a block of its kind closes there. -/
theorem closing_lt_of_opens_inside (h : o.findLink i (e + 1) divider xs = .ok link)
    (hu : xs[n]? = some u) (hk : u.kind = o.kind) (hc : u.closes = false)
    (hl : u.findLink (i + n + 1) 1 none (xs.drop (n + 1)) = .ok link')
    (hn : i + n < link.closing) : link'.closing < link.closing := by
  obtain ⟨e', divider', hinside⟩ := findLink_inside h hn.le
  obtain ⟨hlt, rfl⟩ := List.getElem?_eq_some_iff.1 hu
  rw [List.drop_eq_getElem_cons hlt, findLink_of_opens hk hc (Nat.succ_pos e')] at hinside
  have hover : o.findLink (0 + (i + n + 1)) (0 + 1 + (e' + 1)) divider'
      (xs.drop (n + 1) ++ []) = _ := findLink_over hk (Nat.succ_pos e') 0 hl
  rw [List.append_nil, Nat.zero_add, Nat.zero_add, Nat.zero_add, Nat.add_comm 1] at hover
  exact (findLink_bounds (hover.symm.trans hinside)).1

theorem closes_of_depthAfter_eq_zero (h : o.depthAfter t (e + 1) = 0) :
    t.kind = o.kind ∧ t.closes := by
  unfold depthAfter at h
  split_ifs at h with hk hc
  exact ⟨hk, hc⟩

/-- What a link leads to: a closing tag of the block's kind, and an else. -/
theorem findLink_partners : ∀ {i e : Nat} {divider : Option (Nat × Span)} {xs : List Tag},
    o.findLink i (e + 1) divider xs = .ok link →
      (∃ c, xs[link.closing - i]? = some c ∧ c.kind = o.kind ∧ c.closes) ∧
        ∀ m ∈ link.divider, divider.map (·.1) = some m ∨
          i ≤ m ∧ ∃ c, xs[m - i]? = some c ∧ c.kind = .elseMark
  | i, e, divider, [], h => by cases h
  | i, e, divider, t :: xs, h => by
    have hget : ∀ {m}, i + 1 ≤ m → (t :: xs)[m - i]? = xs[m - (i + 1)]? := by
      intro m hm
      rw [show m - i = m - (i + 1) + 1 by omega, List.getElem?_cons_succ]
    simp only [findLink] at h
    rcases hdepth : o.depthAfter t (e + 1) with _ | e'
    · rw [hdepth, if_pos rfl] at h
      obtain rfl := Except.ok.inj h
      refine ⟨⟨t, by simp, closes_of_depthAfter_eq_zero hdepth⟩, fun m hm => .inl hm⟩
    · rw [hdepth, if_neg (Nat.succ_ne_zero e')] at h
      split_ifs at h with helse
      · rcases divider with _ | x
        · obtain ⟨hclosing, hdivider⟩ := findLink_partners h
          rw [hget (findLink_bounds h).1]
          refine ⟨hclosing, fun m hm => .inr ?_⟩
          rcases hdivider m hm with heq | ⟨hle, hc⟩
          · obtain rfl : i = m := Option.some.inj heq
            exact ⟨le_rfl, t, by simp, helse.2.1⟩
          · exact ⟨Nat.le_of_succ_le hle, hget hle ▸ hc⟩
        · cases h
      · obtain ⟨hclosing, hdivider⟩ := findLink_partners h
        rw [hget (findLink_bounds h).1]
        refine ⟨hclosing, fun m hm => (hdivider m hm).imp_right ?_⟩
        rintro ⟨hle, hc⟩
        exact ⟨Nat.le_of_succ_le hle, hget hle ▸ hc⟩

/-! ## Passing over -/

/-- The tag at index `i` opens a block, and the search among the tags behind it gives the link. -/
structure LinksTo (tags : List Tag) (i : Nat) (u : Tag) (link : Link) : Prop where
  tag : tags[i]? = some u
  opens : u.opensBlock
  found : u.findLink (i + 1) 1 none (tags.drop (i + 1)) = .ok link

theorem LinksTo.closing_tag (h : LinksTo tags i u link) :
    i < link.closing ∧ ∃ c, tags[link.closing]? = some c ∧ c.kind = u.kind ∧ c.closes := by
  obtain ⟨hlt, -⟩ := findLink_bounds h.found
  obtain ⟨⟨c, hc, hk⟩, -⟩ := findLink_partners h.found
  rw [List.getElem?_drop, Nat.add_sub_cancel' hlt] at hc
  exact ⟨hlt, c, hc, hk⟩

theorem LinksTo.divider_tag (h : LinksTo tags i u link) :
    ∀ m ∈ link.divider, ∃ c, tags[m]? = some c ∧ c.kind = .elseMark := by
  intro m hm
  obtain ⟨-, hdivider⟩ := findLink_partners h.found
  rcases hdivider m hm with heq | ⟨hle, c, hc, hk⟩
  · cases heq
  · rw [List.getElem?_drop, Nat.add_sub_cancel' hle] at hc
    exact ⟨c, hc, hk⟩

theorem LinksTo.isBlock (h : LinksTo tags i u link) : u.kind.isBlock := by
  have := h.opens
  rw [opensBlock, Bool.and_eq_true] at this
  exact this.2

/-- No link leads to a tag that belongs to no block. -/
theorem LinksTo.apart (h : LinksTo tags i u link) (ht : tags[k]? = some t)
    (hk : t.kind.isBlock = false ∧ t.kind ≠ .elseMark) :
    i ≠ k ∧ link.closing ≠ k ∧ k ∉ link.divider := by
  obtain ⟨-, c, hc, hkind, -⟩ := h.closing_tag
  refine ⟨?_, ?_, fun hdiv => ?_⟩
  · rintro rfl
    rw [h.tag] at ht
    obtain rfl := Option.some.inj ht
    exact absurd h.isBlock (by simp [hk.1])
  · rintro rfl
    rw [hc] at ht
    obtain rfl := Option.some.inj ht
    exact absurd h.isBlock (by simp [← hkind, hk.1])
  · obtain ⟨e, he, helse⟩ := h.divider_tag k hdiv
    rw [he] at ht
    obtain rfl := Option.some.inj ht
    exact hk.2 helse

theorem LinksTo.closes_eq (h : LinksTo tags i u link) : u.closes = false := by
  have := h.opens
  cases hc : u.closes
  · rfl
  · simp [opensBlock, hc] at this

theorem LinksTo.moved (h : LinksTo tags i u link) (move : Span → Span) :
    LinksTo (tags.map (·.moved move)) i (u.moved move) link := by
  refine ⟨by rw [List.getElem?_map, h.tag]; rfl, h.opens, ?_⟩
  rw [← List.map_drop, findLink_moved, h.found]
  rfl

theorem LinksTo.of_ofTags {v : LinkedTag} (hv : (LinkedTag.ofTags tags)[i]? = some v)
    (hl : v.link = some link) : LinksTo tags i v.toTag link := by
  rw [LinkedTag.getElem?_ofTags, Option.map_eq_some_iff] at hv
  obtain ⟨u, hu, rfl⟩ := hv
  simp only at hl
  split_ifs at hl with ho
  rcases hfound : u.findLink (i + 1) 1 none (tags.drop (i + 1)) with e | link'
  · rw [hfound] at hl
    cases hl
  · rw [hfound] at hl
    obtain rfl := Option.some.inj hl
    exact ⟨hu, ho, hfound⟩

/-- Every block tag of the list has its partner there, and there is no else. -/
structure SelfContained (tags : List Tag) : Prop where
  opens : blockFaults tags = []
  closes : ∀ n c, tags[n]? = some c → c.closes →
    ∃ i u link, LinksTo tags i u link ∧ link.closing = n
  divides : ∀ t ∈ tags, t.kind ≠ .elseMark

/-- The blocks of the kind that close at the index or behind it are opened there as well. -/
def ClosedFrom (tags : List Tag) (k : Kind) (j : Nat) : Prop :=
  ∀ i u link, LinksTo tags i u link → u.kind = k → j ≤ link.closing → j ≤ i

theorem ClosedFrom.succ {k : Kind} (h : ClosedFrom tags k j) (ht : tags[j]? = some t)
    (hk : t.kind ≠ k) : ClosedFrom tags k (j + 1) := by
  intro i u link hu hkind hle
  refine (h i u link hu hkind (Nat.le_of_succ_le hle)).lt_of_ne fun heq => hk ?_
  rw [heq, hu.tag] at ht
  rw [← Option.some.inj ht, hkind]

/-- Blocks of one kind do not cross. -/
theorem ClosedFrom.behind (h : ClosedFrom tags t.kind j) (hl : LinksTo tags j t link) :
    ClosedFrom tags t.kind (link.closing + 1) := by
  intro i u l hu hkind hle
  obtain ⟨hlt, c, hc, -, hcloses⟩ := hl.closing_tag
  have hji := h i u l hu hkind (by omega)
  by_contra hi
  rcases Nat.eq_or_lt_of_le hji with rfl | hji
  · obtain rfl : u = t := Option.some.inj (hu.tag.symm.trans hl.tag)
    obtain rfl : l = link := Except.ok.inj (hu.found.symm.trans hl.found)
    omega
  · have hopens := hu.closes_eq
    rcases Nat.eq_or_lt_of_le (show i ≤ link.closing by omega) with rfl | hlt'
    · rw [hu.tag] at hc
      obtain rfl := Option.some.inj hc
      rw [hopens] at hcloses
      cases hcloses
    · obtain ⟨n, rfl⟩ := Nat.exists_eq_add_of_le (show j + 1 ≤ i from hji)
      have hget : (tags.drop (j + 1))[n]? = some u := by
        rw [List.getElem?_drop]
        exact hu.tag
      have hfound :
          u.findLink (j + 1 + n + 1) 1 none ((tags.drop (j + 1)).drop (n + 1)) = .ok l := by
        rw [List.drop_drop]
        exact hu.found
      have := closing_lt_of_opens_inside hl.found hget hkind hopens hfound hlt'
      omega

theorem SelfContained.findLink_drop (h : SelfContained tags) (ho : o.kind.isBlock) (hd : 0 < d)
    (i : Nat) (rest : List Tag) : ∀ m j, tags.length - j = m → j ≤ tags.length →
      ClosedFrom tags o.kind j →
        o.findLink (i + j) d divider (tags.drop j ++ rest) =
          o.findLink (i + tags.length) d divider rest := by
  intro m
  induction m using Nat.strong_induction_on with
  | _ m ih =>
    intro j hm hj hclosed
    rcases Nat.eq_or_lt_of_le hj with rfl | hlt
    · rw [List.drop_length, List.nil_append]
    · have ht : tags[j]? = some tags[j] := List.getElem?_eq_getElem hlt
      rw [List.drop_eq_getElem_cons hlt, List.cons_append]
      generalize tags[j] = t at ht
      by_cases hk : t.kind = o.kind
      · by_cases hc : t.closes
        · -- the block that the tag closes would be open at it
          obtain ⟨p, u, link, hu, rfl⟩ := h.closes j t ht hc
          obtain ⟨hlt, c, hc, hkind, -⟩ := hu.closing_tag
          rw [ht] at hc
          obtain rfl := Option.some.inj hc
          have := hclosed p u link hu (hkind.symm.trans hk) le_rfl
          omega
        · have hopens : t.opensBlock := by
            simp [opensBlock, hc, hk, ho]
          obtain ⟨link, hl⟩ := findLink_of_blockFaults_nil h.opens ht hopens
          obtain ⟨hlt, hlen, -⟩ := findLink_bounds hl
          rw [List.length_drop] at hlen
          rw [findLink_of_opens hk (Bool.eq_false_iff.2 hc) hd, Nat.add_comm d, Nat.add_assoc i]
          refine (findLink_over hk hd i hl).trans ?_
          rw [List.drop_drop, Nat.add_assoc i,
            show j + 1 + (link.closing + 1 - (j + 1)) = link.closing + 1 by omega]
          exact ih _ (by omega) _ rfl (by omega) (hk ▸ (hk ▸ hclosed).behind ⟨ht, hopens, hl⟩)
      · have helse := h.divides t (List.mem_of_getElem? ht)
        rw [findLink_of_ne hk hd fun hdiv => helse hdiv.2.1, Nat.add_assoc i]
        exact ih _ (by omega) _ rfl hlt (hclosed.succ ht hk)

/-- The search passes over the list. -/
theorem SelfContained.findLink_append (h : SelfContained tags) (ho : o.kind.isBlock) (hd : 0 < d)
    (i : Nat) (rest : List Tag) : o.findLink i d divider (tags ++ rest) =
      o.findLink (i + tags.length) d divider rest :=
  h.findLink_drop ho hd i rest _ 0 rfl (Nat.zero_le _) fun _ _ _ _ _ _ => Nat.zero_le _

theorem SelfContained.moved (h : SelfContained tags) (move : Span → Span) :
    SelfContained (tags.map (·.moved move)) where
  opens := by
    rw [← List.nil_append (tags.map _)]
    exact blockFaults_append_moved rfl h.opens move
  closes n c hc hcloses := by
    rw [List.getElem?_map, Option.map_eq_some_iff] at hc
    obtain ⟨t, ht, rfl⟩ := hc
    obtain ⟨i, u, link, hu, hn⟩ := h.closes n t ht hcloses
    exact ⟨i, _, link, hu.moved move, hn⟩
  divides t ht := by
    obtain ⟨u, hu, rfl⟩ := List.mem_map.1 ht
    exact h.divides u hu

/-! ## In the place of a tag -/

/-- Where a tag comes to stand if `n` tags take the place of the one at index `k`. -/
def spliced (k n i : Nat) : Nat := if i ≤ k then i else i - 1 + n

theorem spliced_of_le (h : i ≤ k) : spliced k n i = i := if_pos h

theorem spliced_behind (k n j : Nat) : spliced k n (k + 1 + j) = k + n + j := by
  rw [spliced, if_neg (by omega)]
  omega

theorem spliced_succ (h : i ≠ k) : spliced k n (i + 1) = spliced k n i + 1 := by
  unfold spliced
  split_ifs <;> omega

theorem spliced_cases (k n : Nat) (p : Nat) :
    (∃ j < n, p = j + k) ∨ ∃ i ≠ k, p = spliced k n i := by
  rcases Nat.lt_or_ge p k with hp | hp
  · exact .inr ⟨p, hp.ne, (spliced_of_le hp.le).symm⟩
  · obtain ⟨j, rfl⟩ := Nat.exists_eq_add_of_le' hp
    rcases Nat.lt_or_ge j n with hj | hj
    · exact .inl ⟨j, hj, rfl⟩
    · obtain ⟨m, rfl⟩ := Nat.exists_eq_add_of_le hj
      exact .inr ⟨k + 1 + m, by omega, by rw [spliced_behind]; omega⟩

section Spliced

variable {move : Span → Span}

theorem getElem?_spliced (ys : List Tag) (move : Span → Span)
    (hi : (xs ++ t :: zs)[i]? = some u) (hne : i ≠ xs.length) :
    ∃ u', (xs ++ ys ++ zs.map (·.moved move))[spliced xs.length ys.length i]? = some u' ∧
      u.Copies none u' := by
  rcases Nat.lt_or_gt_of_ne hne with hlt | hlt
  · rw [List.getElem?_append_left hlt] at hi
    refine ⟨u, ?_, .refl u⟩
    rw [spliced_of_le hlt.le, List.append_assoc, List.getElem?_append_left hlt, hi]
  · obtain ⟨j, rfl⟩ := Nat.exists_eq_add_of_le (Nat.succ_le_of_lt hlt)
    rw [List.getElem?_append_right (by omega), show xs.length.succ + j - xs.length = j + 1 by omega,
      List.getElem?_cons_succ] at hi
    refine ⟨u.moved move, ?_, .moved (by simp) u⟩
    rw [spliced_behind, List.getElem?_append_right (by simp), List.length_append,
      Nat.add_sub_cancel_left, List.getElem?_map, hi]
    rfl

theorem findLink_behind_spliced (hc : u.Copies none u') (hd : 0 < d)
    (hdiv : DividerCopies none (spliced k n) divider divider') (j : Nat) :
    Carried none (fun l l' => l' = l.renamed (spliced k n))
      (u.findLink (k + 1 + j) d divider zs)
      (u'.findLink (k + n + j) d divider' (zs.map (·.moved move))) := by
  have hcarried : Carried none (fun l l' => l' = l.renamed (spliced k n))
      (u.findLink (k + 1 + j) d divider (zs ++ []))
      (u'.findLink (k + n + j) d divider' (zs.map (·.moved move) ++ [])) :=
    carried_findLink (m := none) hc (forall₂_moved (by simp) zs)
      (fun p _ => by rw [Nat.add_assoc, spliced_behind, ← Nat.add_assoc]) hd hdiv
      fun _ _ _ _ _ => .free rfl _ _
  rwa [List.append_nil, List.append_nil] at hcarried

/-- The links around the place stay. -/
theorem LinksTo.splice (hu : LinksTo (xs ++ t :: zs) i u link) (hy : SelfContained ys)
    (ht : t.kind.isBlock = false ∧ t.kind ≠ .elseMark) (hc : u.Copies none u')
    (hi : (xs ++ ys ++ zs.map (·.moved move))[spliced xs.length ys.length i]? = some u') :
    LinksTo (xs ++ ys ++ zs.map (·.moved move)) (spliced xs.length ys.length i) u'
      (link.renamed (spliced xs.length ys.length)) := by
  refine ⟨hi, hc.opensBlock.trans hu.opens, ?_⟩
  have hfound := hu.found
  have hne : t.kind ≠ u.kind := fun h => by
    rw [h, hu.isBlock] at ht
    cases ht.1
  suffices hcarried : Carried none (fun l l' => l' = l.renamed (spliced xs.length ys.length))
      (u.findLink (i + 1) 1 none ((xs ++ t :: zs).drop (i + 1)))
      (u'.findLink (spliced xs.length ys.length i + 1) 1 none
        ((xs ++ ys ++ zs.map (·.moved move)).drop (spliced xs.length ys.length i + 1))) by
    obtain ⟨_, hok, rfl⟩ := hcarried.of_ok hfound
    exact hok
  rcases Nat.lt_trichotomy i xs.length with hlt | rfl | hlt
  · rw [spliced_of_le hlt.le, List.append_assoc, List.drop_append_of_le_length hlt,
      List.drop_append_of_le_length hlt]
    have hlen : i + 1 + (xs.drop (i + 1)).length = xs.length := by
      rw [List.length_drop]
      omega
    refine carried_findLink hc (List.forall₂_same.2 fun x _ => .refl x)
      (fun p hp => spliced_of_le (by rw [List.length_drop] at hp; omega)) Nat.one_pos .none
      fun d divider divider' hd hdiv => ?_
    rw [hlen, findLink_of_ne hne hd (fun h => ht.2 h.2.1),
      hy.findLink_append (hc.kind ▸ hu.isBlock) hd]
    exact findLink_behind_spliced hc hd hdiv 0
  · have := hu.tag
    rw [List.getElem?_append_right le_rfl, Nat.sub_self, List.getElem?_cons_zero] at this
    exact absurd (congrArg Tag.kind (Option.some.inj this)) hne
  · obtain ⟨j, rfl⟩ := Nat.exists_eq_add_of_le (Nat.succ_le_of_lt hlt)
    have hdrop : (xs ++ t :: zs).drop (xs.length + 1 + j + 1) = zs.drop (j + 1) := by
      rw [show xs.length + 1 + j + 1 = xs.length + (j + 1 + 1) by omega, ← List.drop_drop,
        List.drop_left, List.drop_succ_cons]
    have hdrop' : (xs ++ ys ++ zs.map (·.moved move)).drop (xs.length + ys.length + j + 1) =
        (zs.drop (j + 1)).map (·.moved move) := by
      rw [← List.length_append, Nat.add_assoc, ← List.drop_drop, List.drop_left, List.map_drop]
    rw [Nat.succ_eq_add_one, spliced_behind, hdrop, hdrop', Nat.add_assoc, Nat.add_assoc (_ + _)]
    exact findLink_behind_spliced hc Nat.one_pos .none (j + 1)

end Spliced

/-- If the blocks of both lists are in order, they are so when one list stands in the place of a tag
of the other one. -/
theorem blockFaults_spliced (h : blockFaults (xs ++ t :: zs) = []) (hy : SelfContained ys)
    (ht : t.kind.isBlock = false ∧ t.kind ≠ .elseMark) (inner move : Span → Span) :
    blockFaults (xs ++ ys.map (·.moved inner) ++ zs.map (·.moved move)) = [] := by
  rw [blockFaults_eq_nil_iff]
  intro p u' hu' ho
  rcases spliced_cases xs.length ys.length p with ⟨j, hj, rfl⟩ | ⟨i, hne, rfl⟩
  · have hj := List.getElem?_eq_getElem hj
    rw [getElem?_between xs (zs.map (·.moved move)) inner hj] at hu'
    obtain rfl := Option.some.inj hu'
    obtain ⟨link, hl⟩ := findLink_of_blockFaults_nil hy.opens hj ho
    exact ⟨_, findLink_between xs (zs.map (·.moved move)) inner hj hl⟩
  · obtain ⟨u, hu⟩ : ∃ u, (xs ++ t :: zs)[i]? = some u := by
      have hlen := (List.getElem?_eq_some_iff.1 hu').1
      refine ⟨_, List.getElem?_eq_getElem ?_⟩
      simp only [List.length_append, List.length_map, List.length_cons, spliced] at hlen ⊢
      split_ifs at hlen <;> omega
    obtain ⟨u'', hu'', hc⟩ := getElem?_spliced (ys.map (·.moved inner)) move hu hne
    rw [List.length_map, hu'] at hu''
    obtain rfl := Option.some.inj hu''
    rw [hc.opensBlock] at ho
    obtain ⟨link, hl⟩ := findLink_of_blockFaults_nil h hu ho
    have hspliced := LinksTo.splice ⟨hu, ho, hl⟩ (hy.moved inner) ht hc
      (by rw [List.length_map]; exact hu')
    rw [List.length_map] at hspliced
    exact ⟨_, hspliced.found⟩

end Tag

namespace LinkedTag

open Tag

variable {xs ys zs : List Tag} {t : Tag} {u : LinkedTag} {i : Nat}

/-- Around the place the linked tags are copied, and their links renamed. -/
theorem copies_spliced (h : blockFaults (xs ++ t :: zs) = []) (hy : SelfContained ys)
    (ht : t.kind.isBlock = false ∧ t.kind ≠ .elseMark) (inner move : Span → Span)
    (hu : (ofTags (xs ++ t :: zs))[i]? = some u) (hne : i ≠ xs.length) :
    ∃ u', (ofTags (xs ++ ys.map (·.moved inner) ++ zs.map (·.moved move)))[
        spliced xs.length ys.length i]? = some u' ∧
      u.Copies none (spliced xs.length ys.length) u' := by
  have hget := hu
  rw [getElem?_ofTags, Option.map_eq_some_iff] at hget
  obtain ⟨v, hv, rfl⟩ := hget
  obtain ⟨v', hv', hc⟩ := getElem?_spliced (ys.map (·.moved inner)) move hv hne
  rw [List.length_map] at hv'
  refine copies_ofTags (spliced xs.length ys.length) hu hv' hc h fun ho link hl => ?_
  have hspliced := LinksTo.splice ⟨hv, ho, hl⟩ (hy.moved inner) ht hc (by rwa [List.length_map])
  rw [List.length_map] at hspliced
  exact hspliced.found

end LinkedTag

end Stencil
