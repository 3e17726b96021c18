import Stencil.Proofs.CopiedReadings
import Stencil.Proofs.ScannedStretches

/-!
# Sources that are joined

Where no tag reaches over the seam of two sources, the tags of the joined source are those of the
first one and, moved, those of the second one (`scan_append`), and the texts between them are the
same, but that the text behind the first one's tags and the text in front of the second one's tags
become one. If both can be read, every block keeps its link. So the joined source gives what the two
give, one behind the other (`render_append`).
-/

namespace Stencil

namespace Tag

variable {p q : Bytes} {pos stop i : Nat} {xs ys : List Tag}

/-! ## Texts between tags -/

/-- The text in front of the tag of an index, and behind the last tag. -/
def gap (source : Bytes) (tags : List Tag) (i : Nat) : Bytes :=
  source.slice (endOf 0 (tags.take i)) (startOf source.length (tags.drop i))

theorem endOf_map_shift (n pos : Nat) (ts : List Tag) :
    endOf (n + pos) (ts.map (·.moved (·.shift n))) = n + endOf pos ts := by
  unfold endOf
  rw [List.getLast?_map]
  rcases ts.getLast? with _ | t
  · rfl
  · exact Nat.add_comm ..

theorem startOf_map_shift (n stop : Nat) (ts : List Tag) :
    startOf (n + stop) (ts.map (·.moved (·.shift n))) = n + startOf stop ts := by
  unfold startOf
  rw [List.head?_map]
  rcases ts.head? with _ | t
  · rfl
  · exact Nat.add_comm ..

theorem endOf_le (h : ∀ t ∈ xs, t.span.stop ≤ stop) (hpos : pos ≤ stop) : endOf pos xs ≤ stop := by
  unfold endOf
  rcases hl : xs.getLast? with _ | t
  · exact hpos
  · exact h t (List.mem_of_getLast? hl)

theorem gap_append_left (hx : ∀ t ∈ xs, t.span.start ≤ p.length) (hi : i < xs.length)
    (ys : List Tag) : gap (p ++ q) (xs ++ ys) i = gap p xs i := by
  unfold gap
  rw [List.take_append_of_le_length hi.le, List.drop_append_of_le_length hi.le,
    List.drop_eq_getElem_cons hi]
  exact Bytes.slice_append_left (hx _ (List.getElem_mem hi)) q _

theorem gap_append_seam (hx : ∀ t ∈ xs, t.span.stop ≤ p.length) :
    gap (p ++ q) (xs ++ ys.map (·.moved (·.shift p.length))) xs.length =
      gap p xs xs.length ++ gap q ys 0 := by
  have hend : endOf 0 xs ≤ p.length := endOf_le hx (Nat.zero_le _)
  unfold gap
  rw [List.take_left, List.drop_left, List.take_length, List.drop_length, List.length_append,
    startOf_map_shift, ← Bytes.slice_append hend (Nat.le_add_right ..),
    Bytes.slice_append_left le_rfl]
  congr 1
  exact Bytes.slice_append_right p q 0 _

theorem endOf_append_of_ne_nil (hy : ys ≠ []) (a b : Nat) (xs : List Tag) :
    endOf a (xs ++ ys) = endOf b ys := by
  unfold endOf
  rw [List.getLast?_append_of_ne_nil xs hy, List.getLast?_eq_getLast_of_ne_nil hy]
  rfl

theorem gap_append_right (hi : 0 < i) (hlen : i ≤ ys.length) (xs : List Tag) :
    gap (p ++ q) (xs ++ ys.map (·.moved (·.shift p.length))) (i + xs.length) = gap q ys i := by
  have hne : (ys.take i).map (·.moved (·.shift p.length)) ≠ [] := by
    intro h
    have := congrArg List.length h
    simp only [List.length_map, List.length_take, List.length_nil] at this
    omega
  unfold gap
  rw [Nat.add_comm i, List.take_append, List.drop_append, List.take_of_length_le (by omega),
    List.drop_of_length_le (by omega), Nat.add_sub_cancel_left, ← List.map_take, ← List.map_drop,
    List.length_append, List.nil_append, startOf_map_shift,
    endOf_append_of_ne_nil hne 0 (p.length + 0), endOf_map_shift, Bytes.slice_append_right]

/-- The texts from the seam on, the first of which has the text at the end of the first source in
front. -/
theorem gap_append_from (hx : ∀ t ∈ xs, t.span.stop ≤ p.length)
    (hi : i ≤ ys.length) :
    gap (p ++ q) (xs ++ ys.map (·.moved (·.shift p.length))) (i + xs.length) =
      Reading.atFront (gap p xs xs.length) i ++ gap q ys i := by
  rcases Nat.eq_zero_or_pos i with rfl | hpos
  · rw [Nat.zero_add, gap_append_seam hx]
    rfl
  · rw [gap_append_right hpos hi, Reading.atFront_of_pos hpos, List.nil_append]

end Tag

namespace Reading

variable {R R' Q : Reading} {i : Nat}

theorem Parsed.text_eq (h : R.Parsed) (i : Nat) : R.text i =
    Tag.gap R.page.source (Tag.scan R.page.source ⟨0, R.page.source.length⟩) i := by
  rw [text, behind, before, List.map_take, List.map_drop, h.map_toTag, Tag.gap]

theorem Parsed.length_scan (h : R.Parsed) :
    (Tag.scan R.page.source ⟨0, R.page.source.length⟩).length = R.tags.length := by
  rw [← h.map_toTag, List.length_map]

end Reading

/-- The pages of the two sources and of the joined one, all of them read. -/
structure Joined (R R' Q : Reading) : Prop where
  left : R.Parsed
  right : R'.Parsed
  joined : Q.Parsed
  source : Q.page.source = R.page.source ++ R'.page.source
  scan : Tag.scan Q.page.source ⟨0, Q.page.source.length⟩ =
    Tag.scan R.page.source ⟨0, R.page.source.length⟩ ++
      (Tag.scan R'.page.source ⟨0, R'.page.source.length⟩).map
        (·.moved (·.shift R.page.source.length))
  path : R.page.path = none ∧ R'.page.path = none ∧ Q.page.path = none

namespace Joined

open Reading

variable {r : Renderer} {files : Files} {levels i : Nat} {R R' Q : Reading} {b : Bindings}

theorem length_eq (h : Joined R R' Q) : Q.tags.length = R'.tags.length + R.tags.length := by
  rw [← h.joined.length_scan, h.scan, List.length_append, List.length_map, h.left.length_scan,
    h.right.length_scan, Nat.add_comm]

theorem embedded_left (h : Joined R R' Q) : Embedded (some id) 0 R Q := by
  have hscan := h.scan
  rw [← List.map_id (Tag.scan R.page.source _), ← List.nil_append (List.map id _)] at hscan
  exact .of_scan id [] _ h.left h.joined (fun _ _ => ⟨h.path.1, h.path.2.2⟩) (by simp) hscan

theorem embedded_right (h : Joined R R' Q) :
    Embedded (some (·.shift R.page.source.length)) R.tags.length R' Q := by
  rw [← h.left.length_scan]
  refine .of_scan (·.shift R.page.source.length) _ [] h.right h.joined
    (fun _ _ => ⟨h.path.2.1, h.path.2.2⟩) (by simp) ?_
  rw [h.scan, List.append_nil]

theorem span_le {source : Bytes} : ∀ t ∈ Tag.scan source ⟨0, source.length⟩,
    t.span.start ≤ source.length ∧ t.span.stop ≤ source.length := by
  intro t ht
  obtain ⟨-, hlt, hle⟩ := Tag.scan_bounds le_rfl (Nat.zero_le _) ht
  exact ⟨hlt.le.trans hle, hle⟩

theorem text_left (h : Joined R R' Q) (hi : i < R.tags.length) : Q.text i = R.text i := by
  rw [← h.left.length_scan] at hi
  rw [h.joined.text_eq, h.scan, h.source, h.left.text_eq,
    Tag.gap_append_left (fun t ht => (span_le t ht).1) hi]

theorem text_right (h : Joined R R' Q) (hi : i ≤ R'.tags.length) :
    Q.text (i + R.tags.length) = atFront (R.text R.tags.length) i ++ R'.text i := by
  rw [← h.right.length_scan] at hi
  rw [h.joined.text_eq, h.scan, h.source, h.left.text_eq, h.right.text_eq, ← h.left.length_scan,
    Tag.gap_append_from (fun t ht => (span_le t ht).2) hi]

/-- The second source is rendered behind the text of the first one's last tag. -/
theorem follows_right (h : Joined R R' Q) :
    Follows (some (·.shift R.page.source.length)) (fun x c => c.bytes = R.text R.tags.length ++ x)
      ((interpret r files levels R' R'.whole b).map Chain.bytes)
      (interpret r files levels Q ⟨R.tags.length, Q.tags.length⟩ b) := by
  have hlen := h.length_eq
  have hend : Follows (some (·.shift R.page.source.length))
      (fun (y : Bytes) c => c.bytes = atFront (R.text R.tags.length) R'.tags.length ++
        R'.text R'.tags.length ++ y) (.ok [])
      (interpret r files levels Q ⟨R'.tags.length + R.tags.length, Q.whole.last⟩ b) := by
    rw [show Q.whole.last = R'.tags.length + R.tags.length from hlen, interpret_self]
    exact .ok (by rw [Chain.bytes_ofBytes, h.text_right le_rfl, List.append_nil])
  have hall := h.embedded_right.follows_joined ⟨Nat.zero_le _, le_rfl⟩ (dangling_whole h.joined)
    (Nat.zero_le _) hlen.ge (fun i hi => h.text_right hi.le) hend 0 (Nat.zero_le _)
  rw [Nat.zero_add] at hall
  simp only [Rendering.ok_bind, List.append_nil] at hall
  exact hall

/-- The joined source gives what the two give, one behind the other. -/
theorem map_interpret (h : Joined R R' Q) :
    (interpret r files levels Q Q.whole b).map Chain.bytes = (do
      let x ← (interpret r files levels R R.whole b).map Chain.bytes
      let y ← ((interpret r files levels R' R'.whole b).map Chain.bytes).mapError
        (·.moved (·.shift R.page.source.length))
      return x ++ y) := by
  have hid : (some (RenderFault.moved id)) = some id := congrArg some RenderFault.moved_id
  have hend : Follows (some id)
      (fun y c => c.bytes = atFront [] R.tags.length ++ R.text R.tags.length ++ y)
      (((interpret r files levels R' R'.whole b).map Chain.bytes).mapError
        (·.moved (·.shift R.page.source.length)))
      (interpret r files levels Q ⟨R.tags.length + 0, Q.whole.last⟩ b) := by
    simp only [atFront_nil, List.nil_append]
    rw [Follows, Option.map_some, hid]
    exact h.follows_right.mapError
  have hall := h.embedded_left.follows_joined ⟨Nat.zero_le _, le_rfl⟩ (dangling_whole h.joined)
    le_rfl (h.length_eq.ge.trans' (Nat.le_add_left ..))
    (fun i hi => by rw [atFront_nil, List.nil_append, Nat.add_zero, h.text_left hi]) hend 0
    (Nat.zero_le _)
  rw [Follows, Option.map_some, hid] at hall
  have hbytes := hall.map (T := Eq) (f := id) (g := Chain.bytes) fun _ _ hw => hw.symm
  refine hbytes.eq_mapError.trans ?_
  rw [show R.whole = ⟨0, R.tags.length⟩ from rfl]
  rcases interpret r files levels R ⟨0, R.tags.length⟩ b with e | x
  · rfl
  · rcases interpret r files levels R' R'.whole b with e | y <;> rfl

end Joined

/-- Two sources that can be read, and over whose seam no tag reaches, can be read when they are
joined, and give what they give one behind the other. What stops the first one stops the joined one.
So does what stops the second one; its spans are moved behind the first source, unless it names a
file. -/
theorem render_append {a b : Bytes} {ta tb : Template} (ha : Template.parse a = .ok ta)
    (hb : Template.parse b = .ok tb)
    (hseam : ∀ t ∈ Tag.scan (a ++ b) ⟨0, (a ++ b).length⟩,
      ¬ (t.span.start < a.length ∧ a.length < t.span.stop)) :
    (∃ t, Template.parse (a ++ b) = .ok t) ∧
      ∀ (r : Renderer) (files : Files) (s : Bindings),
        (r.render files (a ++ b) s).result.map Chain.bytes = (do
          let x ← (r.render files a s).result.map Chain.bytes
          let y ← ((r.render files b s).result.map Chain.bytes).mapError
            (·.moved (·.shift a.length))
          return x ++ y) := by
  obtain ⟨-, -, hfa⟩ := Template.ofTags_eq_ok ha
  obtain ⟨-, -, hfb⟩ := Template.ofTags_eq_ok hb
  have hscan := Tag.scan_append hseam
  obtain ⟨t, ht⟩ : ∃ t, Template.parse (a ++ b) = .ok t := by
    rw [Template.parse, Template.parseRange, Template.ofTags, hscan,
      Tag.blockFaults_append_moved hfa hfb]
    exact ⟨_, rfl⟩
  refine ⟨⟨t, ht⟩, fun r files s => ?_⟩
  have hjoined : Joined ⟨⟨a, none⟩, ta.tags⟩ ⟨⟨b, none⟩, tb.tags⟩ ⟨⟨a ++ b, none⟩, t.tags⟩ :=
    ⟨(Reading.parsed_of_parse ha).1, (Reading.parsed_of_parse hb).1, (Reading.parsed_of_parse ht).1,
      rfl, hscan, rfl, rfl, rfl⟩
  simp only [Reading.result_render_of_ok ha, Reading.result_render_of_ok hb,
    Reading.result_render_of_ok ht]
  exact hjoined.map_interpret

/-- The first source ends in a tag that is not finished, and an else of the second one is out of
place. -/
theorem render_append_unfinished :
    let a : Bytes := .ofString "<TMPL_IF name=\"x\">a</TMPL_IF><TMPL_VAR name=\""
    let b : Bytes := .ofString "<TMPL_LOOP name=\"l\"><TMPL_ELSE></TMPL_LOOP>"
    let s : Bindings := ⟨[("x", [49])], [("l", [∅])]⟩
    ((∃ t, Template.parse a = .ok t) ∧ (∃ t, Template.parse b = .ok t) ∧
      ∀ t ∈ Tag.scan (a ++ b) ⟨0, (a ++ b).length⟩,
        ¬ (t.span.start < a.length ∧ a.length < t.span.stop)) ∧
      (Renderer.standard.render (fun _ => .error .notFound) (a ++ b) s).result.map Chain.bytes =
        .error (.strayElse ⟨65, 76⟩ none) := by
  intro a b s
  have hseam : ∀ t ∈ Tag.scan (a ++ b) ⟨0, (a ++ b).length⟩,
      ¬ (t.span.start < a.length ∧ a.length < t.span.stop) := by decide +kernel
  have hparses : (Template.parse a).toOption.isSome ∧ (Template.parse b).toOption.isSome := by
    decide +kernel
  rcases ha : Template.parse a with _ | ta <;> rw [ha] at hparses
  · cases hparses.1
  · rcases hb : Template.parse b with _ | tb <;> rw [hb] at hparses
    · cases hparses.2
    · refine ⟨⟨⟨ta, rfl⟩, ⟨tb, rfl⟩, hseam⟩, ?_⟩
      rw [(render_append ha hb hseam).2]
      decide +kernel

end Stencil
