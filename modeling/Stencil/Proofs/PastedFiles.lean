import Stencil.Proofs.ClosedTags
import Stencil.Proofs.DepthLimit
import Stencil.Proofs.JoinedSources

/-!
# Pasting a file in the place of its include

A file whose tags are closed among themselves gives the same where it stands as where it is
included (`render_paste`). The tags around keep their links, and so every region that is gone into
in the one source is gone into in the other one, with the include or with the whole file in it. The
include takes one level more than the file in its place; the levels that are left over change
nothing.
-/

namespace Stencil

/-- The span if `n` octets stand in front of it in the place of `m`. -/
def Span.replaced (m n : Nat) (s : Span) : Span := ⟨s.start - m + n, s.stop - m + n⟩

namespace Tag

variable {a x b : Bytes} {ts xs us : List Tag} {i j : Nat}

/-- The tags of three sources, in the source that they make. -/
def threefold (a x : Bytes) (ts xs us : List Tag) : List Tag :=
  ts ++ (xs ++ us.map (·.moved (·.shift x.length))).map (·.moved (·.shift a.length))

theorem gap_threefold_inner (ht : ∀ t ∈ ts, t.span.stop ≤ a.length)
    (hx : ∀ t ∈ xs, t.span.start ≤ x.length) (us : List Tag) (hj : j < xs.length) :
    gap (a ++ (x ++ b)) (threefold a x ts xs us) (j + ts.length) =
      Reading.atFront (gap a ts ts.length) j ++ gap x xs j := by
  rw [threefold, gap_append_from ht (by rw [List.length_append]; omega), gap_append_left hx hj]

theorem gap_threefold_right (ht : ∀ t ∈ ts, t.span.stop ≤ a.length)
    (hx : ∀ t ∈ xs, t.span.stop ≤ x.length) (hj : j ≤ us.length) :
    gap (a ++ (x ++ b)) (threefold a x ts xs us) (ts.length + xs.length + j) =
      Reading.atFront (gap a ts ts.length) (xs.length + j) ++
        (Reading.atFront (gap x xs xs.length) j ++ gap b us j) := by
  rw [threefold, Nat.add_assoc, Nat.add_comm, Nat.add_comm xs.length,
    gap_append_from ht (by rw [List.length_append, List.length_map]; omega), gap_append_from hx hj]

theorem moved_shift_shift (m n : Nat) (t : Tag) :
    (t.moved (·.shift n)).moved (·.shift m) = t.moved (·.shift (m + n)) := by
  simp only [moved, Span.shift, Nat.add_assoc, Nat.add_comm n]

theorem threefold_eq (a x : Bytes) (ts xs us : List Tag) : threefold a x ts xs us =
    ts ++ xs.map (·.moved (·.shift a.length)) ++
      us.map (·.moved (·.shift (a ++ x).length)) := by
  rw [threefold, List.map_append, List.map_map, List.append_assoc, List.length_append]
  refine congrArg (fun vs => ts ++ (xs.map _ ++ vs)) (List.map_congr_left fun t _ => ?_)
  exact moved_shift_shift ..

theorem moved_shift_replaced (k m n : Nat) (t : Tag) :
    (t.moved (·.shift (k + m))).moved (·.replaced m n) = t.moved (·.shift (k + n)) := by
  simp only [moved, Span.shift, Span.replaced, ← Nat.add_assoc, Nat.add_sub_cancel]

theorem gap_threefold_left (ht : ∀ t ∈ ts, t.span.start ≤ a.length) (x : Bytes) (xs us : List Tag)
    (hi : i < ts.length) : gap (a ++ (x ++ b)) (threefold a x ts xs us) i = gap a ts i :=
  gap_append_left ht hi _

variable {t : Tag} {f : Bytes} {fs : List Tag}

/-- Where the source in the middle is one tag, it has no text. -/
theorem gap_tag (hspan : t.span = ⟨0, x.length⟩) : gap x [t] 0 = [] ∧ gap x [t] 1 = [] := by
  simp [gap, startOf, endOf, Bytes.slice, hspan]

theorem gap_threefold_tag (ht : ∀ t ∈ ts, t.span.stop ≤ a.length) (hspan : t.span = ⟨0, x.length⟩)
    (us : List Tag) :
    gap (a ++ (x ++ b)) (threefold a x ts [t] us) ts.length = gap a ts ts.length := by
  have hinner := gap_threefold_inner (x := x) (b := b) ht (by simp [hspan]) us
    (show 0 < [t].length from Nat.one_pos)
  rw [Nat.zero_add, (gap_tag hspan).1, List.append_nil] at hinner
  exact hinner

/-- Where the source in the middle takes the place of a tag, the texts around stay. -/
theorem gap_threefold_spliced (ht : ∀ t ∈ ts, t.span.start ≤ a.length ∧ t.span.stop ≤ a.length)
    (hf : ∀ t ∈ fs, t.span.stop ≤ f.length) (hspan : t.span = ⟨0, x.length⟩)
    (hi : i ≤ ts.length + 1 + us.length) (hne : i ≠ ts.length) :
    gap (a ++ (f ++ b)) (threefold a f ts fs us) (spliced ts.length fs.length i) =
      (if i = ts.length + 1 then
        Reading.atFront (gap a ts ts.length) fs.length ++ gap f fs fs.length else []) ++
        gap (a ++ (x ++ b)) (threefold a x ts [t] us) i := by
  have hstart := fun t h => (ht t h).1
  have hstop := fun t h => (ht t h).2
  rcases Nat.lt_or_gt_of_ne hne with hlt | hlt
  · rw [spliced_of_le hlt.le, gap_threefold_left hstart f fs us hlt,
      gap_threefold_left hstart x [t] us hlt, if_neg (by omega), List.nil_append]
  · obtain ⟨j, rfl⟩ := Nat.exists_eq_add_of_le (Nat.succ_le_of_lt hlt)
    have hj : j ≤ us.length := by omega
    have hx : ∀ u ∈ [t], u.span.stop ≤ x.length := by simp [hspan]
    have htag := gap_threefold_right (b := b) hstop hx hj
    rw [Nat.succ_eq_add_one, spliced_behind, gap_threefold_right hstop hf hj]
    rw [List.length_singleton] at htag
    rw [htag, (gap_tag hspan).2, Reading.atFront_nil,
      Reading.atFront_of_pos (show 0 < 1 + j by omega)]
    rcases j with _ | j
    · simp
    · rw [Reading.atFront_of_pos (show 0 < fs.length + (j + 1) by omega),
        Reading.atFront_of_pos (Nat.succ_pos j), if_neg (by omega)]
      rfl

/-- A tag that makes up the middle one of three sources leaves the others their tags. -/
theorem scan_eq_threefold {t : Tag} (hspan : t.span = ⟨a.length, (a ++ x).length⟩)
    (h : scan (a ++ x ++ b) ⟨0, (a ++ x ++ b).length⟩ = ts ++ t :: us) :
    ts = scan a ⟨0, a.length⟩ ∧
      us = (scan b ⟨0, b.length⟩).map (·.moved (·.shift (a ++ x).length)) := by
  have hbefore := scan_before le_rfl (Nat.zero_le _) h
  have hbehind := scan_tail le_rfl (scan_endOf le_rfl (Nat.zero_le _) h).1
    (scan_endOf le_rfl (Nat.zero_le _) h).2
  rw [hspan] at hbefore hbehind
  constructor
  · rw [← hbefore, List.append_assoc, scan_append_left]
  · rw [← hbehind, scan_append_right]

end Tag

namespace Region

variable {k n i j : Nat} {g : Region}

open Tag (spliced)

/-- The region does not begin behind the place, nor end in front of it. -/
def ClearOf (k : Nat) (g : Region) : Prop := g.first ≠ k + 1 ∧ g.last ≠ k

theorem ClearOf.holds_spliced (h : g.ClearOf k) (hi : i ≠ k) :
    (g.renamed (spliced k n)).Holds (spliced k n i) ↔ g.Holds i := by
  obtain ⟨hfirst, hlast⟩ := h
  simp only [Holds, renamed, spliced]
  split_ifs <;> omega

theorem ClearOf.holds_inner (h : g.ClearOf k) (hj : j < n) :
    (g.renamed (spliced k n)).Holds (j + k) ↔ g.Holds k := by
  obtain ⟨hfirst, hlast⟩ := h
  simp only [Holds, renamed, spliced]
  split_ifs <;> omega

theorem le_last_spliced (hk : g.Holds k) : n + k ≤ spliced k n g.last := by
  obtain ⟨-, hlast⟩ := hk
  rw [spliced, if_neg (by omega)]
  omega

theorem within_spliced {len : Nat} (h : g.Within len) (hk : k < len) :
    (g.renamed (spliced k n)).Within (spliced k n len) := by
  obtain ⟨hle, hlast⟩ := h
  simp only [Within, renamed, spliced]
  split_ifs <;> omega

end Region

namespace Reading

open Tag (spliced spliced_succ spliced_cases spliced_of_le spliced_behind)

variable {r : Renderer} {files : Files} {levels k i : Nat} {P F Q : Reading} {b : Bindings}
  {g : Region} {t : LinkedTag}

theorem dangling_eq_nil {R : Reading} (h : ∀ i u link, g.Holds i → R.tags[i]? = some u →
    u.link = some link → g.Holds link.closing) : g.dangling R.tags = [] := by
  refine List.filterMap_eq_nil_iff.2 fun u hu => ?_
  obtain ⟨j, hj⟩ := List.mem_iff_getElem?.1 hu
  rw [Region.getElem?_of] at hj
  split_ifs at hj with hlt
  rcases hl : u.link with _ | link
  · rfl
  · exact if_pos (h _ u link ⟨Nat.le_add_right .., hlt⟩ hj hl)

/-- A level more changes nothing in a rendering that succeeds. -/
theorem interpret_succ {R : Reading} (h : R.Parsed) {c : Chain}
    (hc : interpret r files levels R R.whole b = .ok c) :
    interpret r files (levels + 1) R R.whole b = .ok c := by
  have hwhole : R.whole.Within R.tags.length := ⟨Nat.zero_le _, le_rfl⟩
  have hfaithful := fun levels =>
    faithful_template r files levels R R.whole b h hwhole (dangling_whole h)
  rw [← hfaithful] at hc ⊢
  rcases r.upTo_template files r.maxDepth (Nat.le_succ levels) R.page (R.template.cut R.whole) b
    with ⟨limit, span, path, he⟩ | heq
  · rw [hc] at he
    cases he
  · rw [← heq]
    exact hc

/-- What the text of an index has in front where the tags of a file are in the place of the tag at
index `k`: the texts of the page and of the file that become one with it. -/
def frontAt (k : Nat) (P F : Reading) (i : Nat) : Bytes :=
  if i = k + 1 then atFront (P.text k) F.tags.length ++ F.text F.tags.length else []

theorem frontAt_of_ne (h : i ≠ k + 1) : frontAt k P F i = [] := if_neg h

/-- In the second reading the tags of a file stand in the place of the tag at index `k` of the first
one. -/
structure Pasted (k : Nat) (P F Q : Reading) : Prop where
  outer : P.Parsed
  included : F.Parsed
  pasted : Q.Parsed
  lt : k < P.tags.length
  length : Q.tags.length = spliced k F.tags.length P.tags.length
  around : ∀ i u, P.tags[i]? = some u → i ≠ k → ∃ u', Q.tags[spliced k F.tags.length i]? = some u' ∧
    u.Copies none (spliced k F.tags.length) u'
  /-- No block has the tag for a partner. -/
  apart : ∀ i u link, P.tags[i]? = some u → u.link = some link →
    i ≠ k ∧ link.closing ≠ k ∧ k ∉ link.divider
  inner : Embedded none k F Q
  text_around : ∀ i ≤ P.tags.length, i ≠ k →
    Q.text (spliced k F.tags.length i) = frontAt k P F i ++ P.text i
  text_inner : ∀ j < F.tags.length, Q.text (j + k) = atFront (P.text k) j ++ F.text j

namespace Pasted

theorem dangling (h : Pasted k P F Q) (hclear : g.ClearOf k) (hd : g.dangling P.tags = []) :
    (g.renamed (spliced k F.tags.length)).dangling Q.tags = [] := by
  refine dangling_eq_nil fun q u' link' hq hu' hl' => ?_
  have hlt := (List.getElem?_eq_some_iff.1 hu').1
  rcases spliced_cases k F.tags.length q with ⟨j, hj, rfl⟩ | ⟨i, hne, rfl⟩
  · -- a block of the file closes in the file
    have hj' := List.getElem?_eq_getElem hj
    obtain ⟨v, hv, hc⟩ := h.inner.tags j _ hj'
    rw [hu'] at hv
    obtain rfl := Option.some.inj hv
    rw [hc.link, Option.map_eq_some_iff] at hl'
    obtain ⟨link, hl, rfl⟩ := hl'
    obtain ⟨-, hlen, -⟩ := h.included.link_bounds hj' hl
    rw [hclear.holds_inner hj] at hq
    exact (hclear.holds_inner hlen).2 hq
  · have hi : i < P.tags.length := by
      have := h.lt
      rw [h.length] at hlt
      unfold spliced at hlt
      split_ifs at hlt <;> omega
    have hi' := List.getElem?_eq_getElem hi
    obtain ⟨v, hv, hc⟩ := h.around i _ hi' hne
    rw [hu'] at hv
    obtain rfl := Option.some.inj hv
    rw [hc.link, Option.map_eq_some_iff] at hl'
    obtain ⟨link, hl, rfl⟩ := hl'
    rw [hclear.holds_spliced hne] at hq
    exact (hclear.holds_spliced (h.apart i _ link hi' hl).2.1).2 (link_holds hd hq hi' hl)

theorem follows_enter (h : Pasted k P F Q) (hclear : g.ClearOf k) :
    Follows none (fun _ _ => True) (P.enter g) (Q.enter (g.renamed (spliced k F.tags.length))) := by
  rcases hd : P.enter g with e | _
  · exact .free rfl _ _
  · rw [enter_eq_ok_iff.2 (h.dangling hclear (enter_eq_ok_iff.1 hd))]
    exact .ok trivial

/-- With so many levels left, a region gives the same with the include as with the file. -/
def Alike (r : Renderer) (files : Files) (k : Nat) (P F Q : Reading) (levels : Nat) : Prop :=
  ∀ g : Region, g.Within P.tags.length → g.dangling P.tags = [] → g.ClearOf k → ∀ b,
    Follows none (fun c c' => c'.bytes = c.bytes) (interpret r files levels P g b)
      (interpret r files levels Q (g.renamed (spliced k F.tags.length)) b)

theorem follows_tag (h : Pasted k P F Q)
    (hdeeper : ∀ fewer, levels = fewer + 1 → Alike r files k P F Q fewer) {u u' : LinkedTag}
    (hi : P.tags[i]? = some u) (hne : i ≠ k) (hc : u.Copies none (spliced k F.tags.length) u') :
    Follows none (fun x y => y.1.bytes = x.1.bytes ∧ y.2 = spliced k F.tags.length x.2)
      (P.tag r files (innerAt r files levels) b i u)
      (Q.tag r files (innerAt r files levels) b (spliced k F.tags.length i) u') := by
  refine Reading.follows_tag Chain.likeness_bytes (fun _ hm => by cases hm) h.outer hi hc ?_ ?_
  · intro link hl
    obtain ⟨-, -, hdiv⟩ := h.apart i u link hi hl
    exact ⟨spliced_succ hne, fun d hd => spliced_succ fun heq => hdiv (heq ▸ hd)⟩
  · intro fewer hf link hl g hg
    obtain ⟨-, hclosing, hdiv⟩ := h.apart i u link hi hl
    obtain ⟨-, -, hwithin⟩ := between_bounds h.outer hi hl hg
    obtain ⟨hfirst, hlast, -⟩ := hg
    have hclear : g.ClearOf k := by
      constructor
      · rcases hfirst with heq | ⟨d, hd, heq⟩
        · omega
        · rintro hk
          obtain rfl : d = k := by omega
          exact hdiv hd
      · rcases hlast with heq | hd
        · omega
        · rintro rfl
          exact hdiv hd
    exact ⟨h.follows_enter hclear,
      fun hok b => hdeeper fewer hf g hwithin (enter_eq_ok_iff.1 hok) hclear b⟩

theorem last_ne (h : Pasted k P F Q) {u : LinkedTag} (hi : P.tags[i]? = some u) (hne : i ≠ k)
    {x : Chain × Nat} (hx : P.tag r files (innerAt r files levels) b i u = .ok x) : x.2 ≠ k := by
  rcases tag_last hx with heq | ⟨link, hl, heq⟩
  · exact heq ▸ hne
  · exact heq ▸ (h.apart i u link hi hl).2.1

/-- The include gives what the file gives. -/
theorem tag_include (h : Pasted k P F Q) (ht : t.kind = .incl ∨ t.kind = .includes)
    (hread : files (r.resolve t.nameOrEmpty) = .ok F.page.source)
    (hpath : F.page.path = some (r.resolve t.nameOrEmpty)) {x : Chain × Nat}
    (hx : P.tag r files (innerAt r files levels) b k t = .ok x) :
    x.2 = k ∧ interpret r files levels F F.whole b = .ok x.1 := by
  have hfile : ofPage ⟨F.page.source, some (r.resolve t.nameOrEmpty)⟩ = .ok F := by
    obtain ⟨⟨source, path⟩, tags⟩ := F
    obtain rfl : path = _ := hpath
    have hparsed := h.included
    unfold Parsed template at hparsed
    simp only at hparsed
    rw [ofPage, hparsed]
  have hincl : (do let out ← P.file r files (innerAt r files levels) t b
                   return (out, k)) = .ok x := by
    unfold tag at hx
    split_ifs at hx
    rcases ht with ht | ht
    · rw [ht] at hx
      exact hx
    · rw [ht] at hx
      exact hx
  rcases hf : P.file r files (innerAt r files levels) t b with e | out
  · rw [hf] at hincl
    cases hincl
  · rw [hf] at hincl
    obtain rfl := Except.ok.inj hincl
    refine ⟨rfl, ?_⟩
    rcases levels with _ | levels
    · cases hf
    · simp only [file, innerAt, hread, hfile] at hf
      exact interpret_succ h.included hf

/-- From the include on, the region gives the same as from the file on. -/
theorem follows_include (h : Pasted k P F Q) {out : Chain} {g' : Region}
    (hg' : g'.Within Q.tags.length) (hd' : g'.dangling Q.tags = []) (hfirst : g'.first ≤ k)
    (hlast : F.tags.length + k ≤ g'.last) (hfile : interpret r files levels F F.whole b = .ok out)
    {x : Except RenderFault Chain}
    (hrest : Follows none
      (fun c c' => c'.bytes = atFront (P.text k) F.tags.length ++ F.text F.tags.length ++ c.bytes) x
      (interpret r files levels Q ⟨F.tags.length + k, g'.last⟩ b)) :
    Follows none (fun c c' => c'.bytes = c.bytes)
      (do let more ← x
          return .ofBytes (P.text k) ++ out ++ more)
      (interpret r files levels Q ⟨k, g'.last⟩ b) := by
  rcases x with e | more
  · exact .free rfl _ _
  · obtain ⟨c', hc', hbytes'⟩ := hrest.of_ok rfl
    have hend : Follows none
        (fun y c => c.bytes = atFront (P.text k) F.tags.length ++ F.text F.tags.length ++ y)
        (.ok more.bytes) (interpret r files levels Q ⟨F.tags.length + k, g'.last⟩ b) :=
      hc' ▸ .ok hbytes'
    have hjoined := h.inner.follows_joined hg' hd' hfirst hlast h.text_inner hend 0 (Nat.zero_le _)
    rw [show (⟨0, F.tags.length⟩ : Region) = F.whole from rfl, hfile, Nat.zero_add] at hjoined
    obtain ⟨c, hc, hbytes⟩ := hjoined.of_ok rfl
    rw [hc]
    refine .ok ?_
    simp only [Chain.bytes_append, Chain.bytes_ofBytes, hbytes, List.append_assoc]
    rfl

/-- A region gives the same with the include as with the file. -/
theorem alike_of_deeper (h : Pasted k P F Q) (hk : P.tags[k]? = some t)
    (ht : t.kind = .incl ∨ t.kind = .includes)
    (hread : files (r.resolve t.nameOrEmpty) = .ok F.page.source)
    (hpath : F.page.path = some (r.resolve t.nameOrEmpty))
    (hdeeper : ∀ fewer, levels = fewer + 1 → Alike r files k P F Q fewer) :
    Alike r files k P F Q levels := by
  intro g hg hd hclear b
  have hd' := h.dangling hclear hd
  have hg' : (g.renamed (spliced k F.tags.length)).Within Q.tags.length :=
    h.length ▸ Region.within_spliced hg h.lt
  suffices hfrom : ∀ i, g.first ≤ i → i ≤ g.last →
      Follows none (fun c c' => c'.bytes = frontAt k P F i ++ c.bytes)
        (interpret r files levels P ⟨i, g.last⟩ b)
        (interpret r files levels Q
          ⟨spliced k F.tags.length i, (g.renamed (spliced k F.tags.length)).last⟩ b) by
    have hall := hfrom g.first le_rfl hg.1
    rwa [frontAt_of_ne hclear.1] at hall
  refine walk_induction r files levels b h.outer hg hd ?_ fun i u hi hu ih => ?_
  · rw [interpret_self, show (g.renamed _).last = spliced k F.tags.length g.last from rfl,
      interpret_self, h.text_around _ hg.2 hclear.2]
    exact .ok (by rw [Chain.bytes_ofBytes, Chain.bytes_ofBytes])
  · rw [interpret_step h.outer hg hd hi hu]
    by_cases hne : i = k
    · subst hne
      obtain rfl := Option.some.inj (hu.symm.trans hk)
      rcases hx : P.tag r files (innerAt r files levels) b i u with e | x
      · exact .free rfl _ _
      · obtain ⟨hx2, hfile⟩ := h.tag_include ht hread hpath hx
        have hrest := ih x hx
        rw [hx2, frontAt, if_pos rfl, show spliced i F.tags.length (i + 1) = i + F.tags.length from
          spliced_behind i F.tags.length 0, Nat.add_comm i F.tags.length] at hrest
        rw [Rendering.ok_bind, hx2, spliced_of_le le_rfl, frontAt_of_ne (by omega)]
        exact h.follows_include hg' hd' ((spliced_of_le hi.1).trans_le hi.1)
          (Region.le_last_spliced hi) hfile hrest
    · have hlen := (List.getElem?_eq_some_iff.1 hu).1
      obtain ⟨u', hu', hc⟩ := h.around i _ hu hne
      rw [interpret_step h.pasted hg' hd' ((hclear.holds_spliced hne).2 hi) hu',
        h.text_around i hlen.le hne]
      refine (h.follows_tag hdeeper hu hne hc).bind fun x y hx hxy => ?_
      obtain ⟨hout, hlast'⟩ := hxy
      have hne' := h.last_ne hu hne hx
      rw [hlast', ← spliced_succ hne']
      refine (ih x hx).bind fun c c' _ hc => .ok ?_
      rw [frontAt_of_ne (by omega), List.nil_append] at hc
      simp only [Chain.bytes_append, Chain.bytes_ofBytes, hout, hc, List.append_assoc]

theorem alike (h : Pasted k P F Q) (hk : P.tags[k]? = some t)
    (ht : t.kind = .incl ∨ t.kind = .includes)
    (hread : files (r.resolve t.nameOrEmpty) = .ok F.page.source)
    (hpath : F.page.path = some (r.resolve t.nameOrEmpty)) : ∀ levels : Nat,
      Alike r files k P F Q levels
  | 0 => h.alike_of_deeper hk ht hread hpath fun _ hf => by cases hf
  | levels + 1 => h.alike_of_deeper hk ht hread hpath fun fewer hf => by
    obtain rfl := Nat.succ.inj hf
    exact h.alike hk ht hread hpath levels

end Pasted

section Sources

open Tag (threefold threefold_eq SelfContained)

/-- The readings of a source with an include, of the file, and of the source with the file in the
place of the include. -/
structure PastedSource (a x b : Bytes) (ts us : List Tag) (u : Tag) (P F Q : Reading) : Prop where
  outer : P.Parsed
  included : F.Parsed
  pasted : Q.Parsed
  source : P.page.source = a ++ x ++ b
  source' : Q.page.source = a ++ F.page.source ++ b
  kind : u.kind = .incl ∨ u.kind = .includes
  span : u.span = ⟨a.length, (a ++ x).length⟩
  self : SelfContained (Tag.scan F.page.source ⟨0, F.page.source.length⟩)
  scan : Tag.scan P.page.source ⟨0, P.page.source.length⟩ = ts ++ u :: us
  scan' : Tag.scan Q.page.source ⟨0, Q.page.source.length⟩ =
    ts ++ (Tag.scan F.page.source ⟨0, F.page.source.length⟩).map (·.moved (·.shift a.length)) ++
      us.map (·.moved (·.replaced x.length F.page.source.length))

namespace PastedSource

variable {a x b : Bytes} {ts us : List Tag} {u : Tag}

theorem around (h : PastedSource a x b ts us u P F Q) : ts = Tag.scan a ⟨0, a.length⟩ ∧
    us = (Tag.scan b ⟨0, b.length⟩).map (·.moved (·.shift (a ++ x).length)) := by
  have hscan := h.scan
  rw [h.source] at hscan
  exact Tag.scan_eq_threefold h.span hscan

theorem not_block (h : PastedSource a x b ts us u P F Q) :
    u.kind.isBlock = false ∧ u.kind ≠ .elseMark := by
  rcases h.kind with hk | hk <;> rw [hk] <;> decide

theorem text_outer (h : PastedSource a x b ts us u P F Q) (i : Nat) :
    P.text i = Tag.gap (a ++ (x ++ b))
      (threefold a x ts [{ u with span := ⟨0, x.length⟩ }] (Tag.scan b ⟨0, b.length⟩)) i := by
  have hu : Tag.moved (·.shift a.length) { u with span := ⟨0, x.length⟩ } = u := by
    simp only [Tag.moved, Span.shift, Nat.zero_add, Nat.add_comm x.length, ← List.length_append,
      ← h.span]
  rw [h.outer.text_eq, h.scan, h.source, List.append_assoc, threefold_eq, List.map_singleton, hu,
    ← h.around.2, List.append_assoc ts, List.singleton_append]

theorem text_pasted (h : PastedSource a x b ts us u P F Q) (i : Nat) :
    Q.text i = Tag.gap (a ++ (F.page.source ++ b))
      (threefold a F.page.source ts (Tag.scan F.page.source ⟨0, F.page.source.length⟩)
        (Tag.scan b ⟨0, b.length⟩)) i := by
  have hus : us.map (·.moved (·.replaced x.length F.page.source.length)) =
      (Tag.scan b ⟨0, b.length⟩).map (·.moved (·.shift (a ++ F.page.source).length)) := by
    rw [h.around.2, List.map_map, List.length_append, List.length_append]
    exact List.map_congr_left fun t _ => Tag.moved_shift_replaced ..
  rw [h.pasted.text_eq, h.scan', h.source', List.append_assoc, threefold_eq, hus]

theorem pastedAt (h : PastedSource a x b ts us u P F Q) : Pasted ts.length P F Q := by
  have hlenP := h.outer.length_scan
  have hlenF := h.included.length_scan
  have hlenQ := h.pasted.length_scan
  have htagsP := h.outer.tags_eq
  have htagsQ := h.pasted.tags_eq
  have hfaults := (Template.ofTags_eq_ok h.outer).2.2
  rw [h.scan] at hlenP htagsP hfaults
  rw [h.scan'] at hlenQ htagsQ
  simp only [List.length_append, List.length_cons, List.length_map] at hlenP hlenQ
  have hlenus := congrArg List.length h.around.2
  rw [List.length_map] at hlenus
  have hleft : ∀ t ∈ ts, t.span.start ≤ a.length ∧ t.span.stop ≤ a.length := by
    rw [h.around.1]
    exact Joined.span_le
  have hinner : ∀ t ∈ Tag.scan F.page.source ⟨0, F.page.source.length⟩,
    t.span.start ≤ F.page.source.length ∧ t.span.stop ≤ F.page.source.length := Joined.span_le
  have htext : P.text ts.length = Tag.gap a ts ts.length := by
    rw [h.text_outer, Tag.gap_threefold_tag (fun t ht => (hleft t ht).2) rfl]
  refine ⟨h.outer, h.included, h.pasted, by omega, ?_, ?_, ?_, ?_, ?_, ?_⟩
  · rw [spliced, if_neg (by omega)]
    omega
  · intro i v hv hne
    rw [htagsP] at hv
    rw [htagsQ, ← hlenF]
    exact LinkedTag.copies_spliced hfaults h.self h.not_block _ _ hv hne
  · intro i v link hv hl
    rw [htagsP] at hv
    exact (Tag.LinksTo.of_ofTags hv hl).apart (by simp) h.not_block
  · exact .of_scan (·.shift a.length) ts _ h.included h.pasted (fun _ hm => by cases hm)
      (fun _ hm => by cases hm) h.scan'
  · intro i hi hne
    rw [h.text_pasted, h.text_outer, frontAt, htext, h.included.text_eq, ← hlenF]
    exact Tag.gap_threefold_spliced hleft (fun t ht => (hinner t ht).2) rfl (by omega) hne
  · intro j hj
    rw [h.text_pasted, htext, h.included.text_eq]
    exact Tag.gap_threefold_inner (fun t ht => (hleft t ht).2) (fun t ht => (hinner t ht).1) _
      (hlenF ▸ hj)

/-- The source with the file gives what the source with the include gives. -/
theorem follows_interpret (h : PastedSource a x b ts us u P F Q)
    (hread : files (r.resolve u.nameOrEmpty) = .ok F.page.source)
    (hpath : F.page.path = some (r.resolve u.nameOrEmpty)) (levels : Nat) (b : Bindings) :
    Follows none (fun c c' => c'.bytes = c.bytes) (interpret r files levels P P.whole b)
      (interpret r files levels Q Q.whole b) := by
  have hpasted := h.pastedAt
  obtain ⟨t, ht, rfl⟩ : ∃ t : LinkedTag, P.tags[ts.length]? = some t ∧ t.toTag = u := by
    rw [← Option.map_eq_some_iff, ← List.getElem?_map, h.outer.map_toTag, h.scan]
    simp
  have hwhole := hpasted.alike ht h.kind hread hpath levels P.whole ⟨Nat.zero_le _, le_rfl⟩
    (dangling_whole h.outer) ⟨Nat.succ_ne_zero _ ∘ Eq.symm, hpasted.lt.ne'⟩ b
  rw [show P.whole.renamed (spliced ts.length F.tags.length) = Q.whole from
    congrArg (Region.mk 0) hpasted.length.symm] at hwhole
  exact hwhole

end PastedSource

end Sources

end Reading

theorem Template.selfContained_of_parse {f : Bytes} {t : Template} (h : parse f = .ok t)
    (hcloses : ∀ n (hn : n < t.tags.length), t.tags[n].closes →
      ∃ o ∈ t.tags, o.link.map (·.closing) = some n)
    (helse : ∀ u ∈ t.tags, u.kind ≠ .elseMark) : Tag.SelfContained (Tag.scan f ⟨0, f.length⟩) := by
  obtain ⟨-, htags, hfaults⟩ := ofTags_eq_ok h
  have hmap : t.tags.map (·.toTag) = Tag.scan f ⟨0, f.length⟩ := by
    rw [htags, LinkedTag.map_toTag_ofTags]
  refine ⟨hfaults, fun n c hc hclosing => ?_, fun c hc => ?_⟩
  · rw [← hmap, List.getElem?_map, Option.map_eq_some_iff] at hc
    obtain ⟨v, hv, rfl⟩ := hc
    obtain ⟨hn, rfl⟩ := List.getElem?_eq_some_iff.1 hv
    obtain ⟨o, ho, hl⟩ := hcloses n hn hclosing
    obtain ⟨i, hi⟩ := List.mem_iff_getElem?.1 ho
    obtain ⟨link, hlink, rfl⟩ := Option.map_eq_some_iff.1 hl
    exact ⟨i, o.toTag, link, .of_ofTags (htags ▸ hi) hlink, rfl⟩
  · rw [← hmap] at hc
    obtain ⟨v, hv, rfl⟩ := List.mem_map.1 hc
    exact helse v hv

/-- A file, each of whose closing tags closes a block of it and in which no else stands, may stand
in the place of its include, if no other tags are found then than those of the source and of the
file. The source can be read then, and where rendering it succeeded with the include it succeeds
with the same octets. -/
theorem render_paste {a x f b : Bytes} {ts us : List Tag} {u : Tag} {tp tf : Template}
    (hkind : u.kind = .incl ∨ u.kind = .includes) (hspan : u.span = ⟨a.length, (a ++ x).length⟩)
    (hscan : Tag.scan (a ++ x ++ b) ⟨0, (a ++ x ++ b).length⟩ = ts ++ u :: us)
    (hp : Template.parse (a ++ x ++ b) = .ok tp) (hf : Template.parse f = .ok tf)
    (hcloses : ∀ n (hn : n < tf.tags.length), tf.tags[n].closes →
      ∃ o ∈ tf.tags, o.link.map (·.closing) = some n)
    (helse : ∀ t ∈ tf.tags, t.kind ≠ .elseMark)
    (hscan' : Tag.scan (a ++ f ++ b) ⟨0, (a ++ f ++ b).length⟩ =
      ts ++ (Tag.scan f ⟨0, f.length⟩).map (·.moved (·.shift a.length)) ++
        us.map (·.moved (·.replaced x.length f.length))) :
    (∃ tq, Template.parse (a ++ f ++ b) = .ok tq) ∧
      ∀ (r : Renderer) (files : Files) (s : Bindings), files (r.resolve u.nameOrEmpty) = .ok f →
        ∀ out, (r.render files (a ++ x ++ b) s).result = .ok out →
          ∃ out', (r.render files (a ++ f ++ b) s).result = .ok out' ∧ out'.bytes = out.bytes := by
  have hself := Template.selfContained_of_parse hf hcloses helse
  have hnot : u.kind.isBlock = false ∧ u.kind ≠ .elseMark := by
    rcases hkind with hk | hk <;> rw [hk] <;> decide
  have hfaults := (Template.ofTags_eq_ok hp).2.2
  rw [hscan] at hfaults
  obtain ⟨tq, hq⟩ : ∃ tq, Template.parse (a ++ f ++ b) = .ok tq := by
    rw [Template.parse, Template.parseRange, Template.ofTags, hscan',
      Tag.blockFaults_spliced hfaults hself hnot]
    exact ⟨_, rfl⟩
  refine ⟨⟨tq, hq⟩, fun r files s hread out hout => ?_⟩
  have hsource : Reading.PastedSource a x b ts us u ⟨⟨a ++ x ++ b, none⟩, tp.tags⟩
      ⟨⟨f, some (r.resolve u.nameOrEmpty)⟩, tf.tags⟩ ⟨⟨a ++ f ++ b, none⟩, tq.tags⟩ :=
    ⟨(Reading.parsed_of_parse hp).1, (Reading.parsed_of_parse hf).1, (Reading.parsed_of_parse hq).1,
      rfl, rfl, hkind, hspan, hself, hscan, hscan'⟩
  rw [Reading.result_render_of_ok hp] at hout
  rw [Reading.result_render_of_ok hq]
  exact (hsource.follows_interpret hread rfl r.maxDepth s).of_ok hout

/-- The include is in a loop, and the file has a block. -/
theorem render_paste_loop :
    let a : Bytes := .ofString "<TMPL_LOOP name=\"l\">"
    let x : Bytes := .ofString "<TMPL_INCL name=\"f\">"
    let b : Bytes := .ofString ";</TMPL_LOOP>"
    let f : Bytes := .ofString "<TMPL_IF name=\"v\">(<TMPL_VAR name=\"v\">)</TMPL_IF>"
    let ts : List Tag := [⟨.loopBlock, ⟨0, 20⟩, some "l", false⟩]
    let u : Tag := ⟨.incl, ⟨20, 40⟩, some "f", false⟩
    let us : List Tag := [⟨.loopBlock, ⟨41, 53⟩, none, true⟩]
    let tp : Template := ⟨⟨0, 53⟩, [⟨⟨.loopBlock, ⟨0, 20⟩, some "l", false⟩, some ⟨2, none⟩⟩,
      ⟨u, none⟩, ⟨⟨.loopBlock, ⟨41, 53⟩, none, true⟩, none⟩]⟩
    let tf : Template := ⟨⟨0, 49⟩, [⟨⟨.ifBlock, ⟨0, 18⟩, some "v", false⟩, some ⟨2, none⟩⟩,
      ⟨⟨.var, ⟨19, 38⟩, some "v", false⟩, none⟩, ⟨⟨.ifBlock, ⟨39, 49⟩, none, true⟩, none⟩]⟩
    let s : Bindings := ⟨[], [("l", [⟨[("v", [49])], []⟩, ⟨[], []⟩])]⟩
    ((u.kind = .incl ∨ u.kind = .includes) ∧ u.span = ⟨a.length, (a ++ x).length⟩ ∧
      Tag.scan (a ++ x ++ b) ⟨0, (a ++ x ++ b).length⟩ = ts ++ u :: us ∧
      Template.parse (a ++ x ++ b) = .ok tp ∧ Template.parse f = .ok tf ∧
      (∀ n (hn : n < tf.tags.length), tf.tags[n].closes →
        ∃ o ∈ tf.tags, o.link.map (·.closing) = some n) ∧
      (∀ t ∈ tf.tags, t.kind ≠ .elseMark) ∧
      Tag.scan (a ++ f ++ b) ⟨0, (a ++ f ++ b).length⟩ =
        ts ++ (Tag.scan f ⟨0, f.length⟩).map (·.moved (·.shift a.length)) ++
          us.map (·.moved (·.replaced x.length f.length))) ∧
      ∃ out, (Renderer.standard.render (fun _ => .ok f) (a ++ f ++ b) s).result = .ok out ∧
        out.bytes = .ofString "(1);;" := by
  intro a x b f ts u us tp tf s
  have hkind : u.kind = .incl ∨ u.kind = .includes := .inl rfl
  have hspan : u.span = ⟨a.length, (a ++ x).length⟩ := by decide +kernel
  have hscan : Tag.scan (a ++ x ++ b) ⟨0, (a ++ x ++ b).length⟩ = ts ++ u :: us := by decide +kernel
  have hp : Template.parse (a ++ x ++ b) = .ok tp := by decide +kernel
  have hf : Template.parse f = .ok tf := by decide +kernel
  have hcloses : ∀ n (hn : n < tf.tags.length), tf.tags[n].closes →
      ∃ o ∈ tf.tags, o.link.map (·.closing) = some n := by decide +kernel
  have helse : ∀ t ∈ tf.tags, t.kind ≠ .elseMark := by decide +kernel
  have hscan' : Tag.scan (a ++ f ++ b) ⟨0, (a ++ f ++ b).length⟩ =
      ts ++ (Tag.scan f ⟨0, f.length⟩).map (·.moved (·.shift a.length)) ++
        us.map (·.moved (·.replaced x.length f.length)) := by decide +kernel
  have hbytes : (Renderer.standard.render (fun _ => .ok f) (a ++ x ++ b) s).result.map Chain.bytes =
      .ok (.ofString "(1);;") := by decide +kernel
  refine ⟨⟨hkind, hspan, hscan, hp, hf, hcloses, helse, hscan'⟩, ?_⟩
  rcases hout : (Renderer.standard.render (fun _ => .ok f) (a ++ x ++ b) s).result with e | out
  · rw [hout] at hbytes
    cases hbytes
  · rw [hout] at hbytes
    obtain ⟨out', hout', heq⟩ :=
      (render_paste hkind hspan hscan hp hf hcloses helse hscan').2 _ _ _ rfl out hout
    exact ⟨out', hout', heq.trans (Except.ok.inj hbytes)⟩

end Stencil
