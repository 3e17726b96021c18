import Stencil.Proofs.Copies

/-!
# Scanning a stretch of a source

Scanning looks at the octets of its stretch and at nothing else. So the tags of a stretch are those
of its octets alone, moved to where these stand (`scan_eq_moved`).

Where a stretch ends, a tag that is not complete is text, and what would have been its name may hold
another tag. A stretch may be scanned in two parts all the same wherever none of its tags reaches
from one part into the other (`scan_split`), and nowhere else (`scan_local_and_split`).
-/

namespace Stencil

namespace Bytes

theorem slice_append_left {p : Bytes} {b : Nat} (h : b ≤ p.length) (q : Bytes) (a : Nat) :
    (p ++ q).slice a b = p.slice a b := by
  unfold slice
  rcases Nat.le_total a p.length with ha | ha
  · rw [List.drop_append_of_le_length ha, List.take_append_of_le_length]
    rw [List.length_drop]
    omega
  · simp [show b - a = 0 by omega]

theorem slice_append_right (p q : Bytes) (a b : Nat) :
    (p ++ q).slice (p.length + a) (p.length + b) = q.slice a b := by
  unfold slice
  rw [← List.drop_drop, List.drop_left, Nat.add_sub_add_left]

end Bytes

namespace Tag

variable {source other p q : Bytes} {pos mid stop : Nat}

/-! ## The octets of a stretch -/

theorem tag_add (x : Lexeme) (pos n : Nat) : x.tag (pos + n) = (x.tag pos).moved (·.shift n) := by
  simp [Lexeme.tag, Tag.moved, Span.shift, Nat.add_right_comm]

theorem scanFrom_add (n : Nat) : ∀ (pos covered : Nat) (bs : Bytes),
    scanFrom (pos + n) covered bs = (scanFrom pos covered bs).map (·.moved (·.shift n))
  | _, _, [] => by simp [scanFrom]
  | pos, covered + 1, _ :: bs => by
    rw [scanFrom, scanFrom, ← scanFrom_add n (pos + 1) covered bs, Nat.add_right_comm]
  | pos, 0, b :: bs => by
    rw [scanFrom, scanFrom]
    rcases Lexeme.read? (b :: bs) with _ | ⟨x, rest⟩
    · rw [← scanFrom_add n (pos + 1) 0 bs, Nat.add_right_comm]
    · simp only [List.map_cons, tag_add]
      rw [← scanFrom_add n (pos + 1) (x.width - 1) bs, Nat.add_right_comm]

/-- The tags of a stretch are those of its octets alone, moved. -/
theorem scan_eq_moved (hpos : pos ≤ stop) (hstop : stop ≤ source.length) :
    scan source ⟨pos, stop⟩ =
      (scan (source.slice pos stop) ⟨0, (source.slice pos stop).length⟩).map
        (·.moved (·.shift pos)) := by
  rw [scan_eq_scanFrom hpos hstop, scan_drop (Nat.zero_le _), List.drop_zero, ← scanFrom_add,
    Nat.zero_add]

/-- Sources that have the same octets in a stretch have the same tags there. -/
theorem scan_congr (hpos : pos ≤ stop) (hstop : stop ≤ source.length)
    (h : other.slice pos stop = source.slice pos stop) :
    scan other ⟨pos, stop⟩ = scan source ⟨pos, stop⟩ := by
  rcases Nat.eq_or_lt_of_le hpos with rfl | hlt
  · rw [scan_nil, scan_nil]
  · have hlen := congrArg List.length h
    rw [Bytes.length_slice hstop, Bytes.slice, List.length_take, List.length_drop] at hlen
    rw [scan_eq_scanFrom hpos hstop, scan_eq_scanFrom hpos (by omega), h]

/-! ## Two parts of a stretch -/

/-- A stretch may be scanned in two parts where no tag reaches from one into the other. -/
theorem scan_split (hstop : stop ≤ source.length) (hmid : mid ≤ stop) (hpos : pos ≤ mid)
    (h : ∀ t ∈ scan source ⟨pos, stop⟩, ¬ (t.span.start < mid ∧ mid < t.span.stop)) :
    scan source ⟨pos, stop⟩ = scan source ⟨pos, mid⟩ ++ scan source ⟨mid, stop⟩ := by
  have hpos' := hpos.trans hmid
  induction pos, hpos' using scan_induction source with
  | nil =>
    obtain rfl := Nat.le_antisymm hpos hmid
    simp [scan_nil]
  | tag pos x hx ih =>
    rcases Nat.eq_or_lt_of_le hpos with rfl | hlt
    · rw [scan_nil, List.nil_append]
    · rw [scan_of_beginsAt hstop hx] at h ⊢
      have hfit : pos + x.width ≤ mid := by
        by_contra hover
        exact h _ List.mem_cons_self ⟨hlt, Nat.lt_of_not_le hover⟩
      rw [scan_of_beginsAt (hmid.trans hstop) ⟨hfit, hx.2⟩,
        ih hfit fun t ht => h t (List.mem_cons_of_mem _ ht)]
      rfl
  | text pos hlt hx ih =>
    rcases Nat.eq_or_lt_of_le hpos with rfl | hlt'
    · rw [scan_nil, List.nil_append]
    · rw [scan_of_not_beginsAt hlt hstop hx] at h ⊢
      have hnone : ∀ x, ¬ BeginsAt source mid pos x := fun x hy =>
        hx x ⟨hy.1.trans hmid, hy.2⟩
      rw [scan_of_not_beginsAt hlt' (hmid.trans hstop) hnone]
      exact ih hlt' h

/-- No tag of either part reaches into the other one. -/
theorem not_over_of_mem_parts (hstop : stop ≤ source.length) (hmid : mid ≤ stop) (hpos : pos ≤ mid)
    {t : Tag} (ht : t ∈ scan source ⟨pos, mid⟩ ++ scan source ⟨mid, stop⟩) :
    ¬ (t.span.start < mid ∧ mid < t.span.stop) := by
  rcases List.mem_append.1 ht with ht | ht
  · have := (scan_bounds (hmid.trans hstop) hpos ht).2.2
    omega
  · have := (scan_bounds hstop hmid ht).1
    omega

/-- The tags of a stretch depend on its octets alone, and are the tags of these octets where they
stand. They are the tags of its two parts, one behind the other, if and only if none of them reaches
from one part into the other. -/
theorem scan_local_and_split (hpos : pos ≤ mid) (hmid : mid ≤ stop) (hstop : stop ≤ source.length) :
    (∀ other : Bytes, other.slice pos stop = source.slice pos stop →
      scan other ⟨pos, stop⟩ = scan source ⟨pos, stop⟩) ∧
    scan source ⟨pos, stop⟩ =
      (scan (source.slice pos stop) ⟨0, (source.slice pos stop).length⟩).map
        (·.moved (·.shift pos)) ∧
    (scan source ⟨pos, stop⟩ = scan source ⟨pos, mid⟩ ++ scan source ⟨mid, stop⟩ ↔
      ∀ t ∈ scan source ⟨pos, stop⟩, ¬ (t.span.start < mid ∧ mid < t.span.stop)) := by
  have hle := hpos.trans hmid
  refine ⟨fun other h => scan_congr hle hstop h, scan_eq_moved hle hstop, fun h t ht => ?_,
    fun h => scan_split hstop hmid hpos h⟩
  rw [h] at ht
  exact not_over_of_mem_parts hstop hmid hpos ht

/-- Without its end, a tag uncovers the else in its name. The stretch up to that end comes apart in
front of the else, but the whole of it does not come apart behind it. -/
theorem scan_uncovers_else :
    let source : Bytes := .ofString "ab<TMPL_VAR name=\"<TMPL_ELSE>\"></TMPL_IF>"
    (2 ≤ 10 ∧ 10 ≤ 29 ∧ 29 ≤ 41 ∧ 41 ≤ source.length) ∧
      scan source ⟨2, 29⟩ = [⟨.elseMark, ⟨18, 29⟩, none, false⟩] ∧
      scan source ⟨2, 29⟩ = scan source ⟨2, 10⟩ ++ scan source ⟨10, 29⟩ ∧
      scan source ⟨2, 41⟩ ≠ scan source ⟨2, 29⟩ ++ scan source ⟨29, 41⟩ := by
  intro source
  have hlen : 41 ≤ source.length := by decide +kernel
  have helse : scan source ⟨2, 29⟩ = [⟨.elseMark, ⟨18, 29⟩, none, false⟩] := by decide +kernel
  obtain ⟨-, -, hparts⟩ := scan_local_and_split (show 2 ≤ 10 by decide) (show 10 ≤ 29 by decide)
    (Nat.le_trans (show 29 ≤ 41 by decide) hlen)
  obtain ⟨-, -, hwhole⟩ := scan_local_and_split (show 2 ≤ 29 by decide) (show 29 ≤ 41 by decide)
    hlen
  refine ⟨⟨by decide, by decide, by decide, hlen⟩, helse, hparts.2 ?_, fun h => ?_⟩
  · rw [helse]
    decide
  · exact absurd (hwhole.1 h) (by decide +kernel)

/-! ## Joined sources -/

/-- Behind the seam stand the tags of the second source, moved. -/
theorem scan_append_right (p q : Bytes) : scan (p ++ q) ⟨p.length, (p ++ q).length⟩ =
    (scan q ⟨0, q.length⟩).map (·.moved (·.shift p.length)) := by
  rw [scan_eq_moved (by simp) le_rfl, Bytes.slice_length, List.drop_left]

theorem scan_append_left (p q : Bytes) :
    scan (p ++ q) ⟨0, p.length⟩ = scan p ⟨0, p.length⟩ :=
  scan_congr (Nat.zero_le _) le_rfl (Bytes.slice_append_left le_rfl q 0)

theorem scan_append (h : ∀ t ∈ scan (p ++ q) ⟨0, (p ++ q).length⟩,
      ¬ (t.span.start < p.length ∧ p.length < t.span.stop)) :
    scan (p ++ q) ⟨0, (p ++ q).length⟩ =
      scan p ⟨0, p.length⟩ ++ (scan q ⟨0, q.length⟩).map (·.moved (·.shift p.length)) := by
  have hlen : p.length ≤ (p ++ q).length := by simp
  rw [scan_split le_rfl hlen (Nat.zero_le _) h, scan_append_left, scan_append_right]

end Tag

end Stencil
