import Stencil.Proofs.TagGrammar
import Stencil.Tag.Scan

/-!
# Scanning finds every tag, from left to right

Whether a tag begins at an offset (`BeginsAt`) depends on the octets of this tag alone, and on the
end of the stretch only in that the tag has to fit in. Scanning goes from offset to offset: over a
whole tag where one begins, over one octet where none does. `scan_induction` is the induction along
these steps; all that is known of the found tags comes from it.

What is scanned behind a found tag, or before one, are the tags behind it or before it
(`scan_tail`, `scan_before`).
-/

namespace Stencil

namespace Bytes

theorem length_slice {bs : Bytes} {a b : Nat} (hb : b ≤ bs.length) :
    (bs.slice a b).length = b - a := by
  simp only [slice, List.length_take, List.length_drop]
  omega

theorem slice_append {bs : Bytes} {a b c : Nat} (hab : a ≤ b) (hbc : b ≤ c) :
    bs.slice a b ++ bs.slice b c = bs.slice a c := by
  simp only [slice]
  rw [show c - a = (b - a) + (c - b) by omega, List.take_add, List.drop_drop,
    show a + (b - a) = b by omega]

theorem slice_length (bs : Bytes) (pos : Nat) : bs.slice pos bs.length = bs.drop pos := by
  rw [slice, List.take_of_length_le (by rw [List.length_drop])]

theorem slice_eq_cons {bs : Bytes} {a b : Nat} (hab : a < b) (hb : b ≤ bs.length) :
    ∃ c, bs.slice a b = c :: bs.slice (a + 1) b := by
  have h1 : (bs.slice a (a + 1)).length = 1 := by
    rw [length_slice (by omega)]
    omega
  obtain ⟨c, hc⟩ := List.length_eq_one_iff.1 h1
  exact ⟨c, by rw [← slice_append (Nat.le_succ a) hab, hc, List.singleton_append]⟩

end Bytes

namespace Tag

/-- A tag begins at the offset and ends at or before `stop`. -/
def BeginsAt (source : Bytes) (stop pos : Nat) (x : Lexeme) : Prop :=
  pos + x.width ≤ stop ∧ Lexeme.Spelling x (source.slice pos (pos + x.width))

variable {source : Bytes} {stop pos : Nat} {x : Lexeme}

theorem beginsAt_of_spelling {q : Nat} (hq : q ≤ stop) (hstop : stop ≤ source.length)
    (h : Lexeme.Spelling x (source.slice pos q)) :
    BeginsAt source stop pos x ∧ q = pos + x.width := by
  have hlen := h.length
  have hpos := List.length_pos_iff.2 h.ne_nil
  rw [Bytes.length_slice (by omega)] at hlen hpos
  obtain rfl : q = pos + x.width := by omega
  exact ⟨⟨hq, h⟩, rfl⟩

theorem width_pos_of_beginsAt (h : BeginsAt source stop pos x) : 0 < x.width := by
  rw [← h.2.length]
  exact List.length_pos_iff.2 h.2.ne_nil

/-- At most one tag begins at an offset, wherever the stretch ends. -/
theorem beginsAt_unique {y : Lexeme} {stop' : Nat} (hx : BeginsAt source stop pos x)
    (hy : BeginsAt source stop' pos y) : x = y := by
  have hsplit : ∀ n, source.slice pos (pos + n) ++ source.drop (pos + n) = source.drop pos := by
    intro n
    simp [Bytes.slice, ← List.drop_drop]
  exact (Lexeme.Spelling.unique hx.2 hy.2 ((hsplit _).trans (hsplit _).symm)).1

theorem read?_slice_of_beginsAt (h : BeginsAt source stop pos x) :
    Lexeme.read? (source.slice pos stop) = some (x, source.slice (pos + x.width) stop) :=
  Lexeme.read?_eq_some_iff.2 ⟨_, h.2, (Bytes.slice_append (Nat.le_add_right ..) h.1).symm⟩

theorem beginsAt_of_read?_slice {rest : Bytes} (hstop : stop ≤ source.length)
    (h : Lexeme.read? (source.slice pos stop) = some (x, rest)) : BeginsAt source stop pos x := by
  obtain ⟨w, hw, he⟩ := Lexeme.read?_eq_some_iff.1 h
  have hlen := congrArg List.length he
  rw [Bytes.length_slice hstop, List.length_append, hw.length] at hlen
  have hpos := List.length_pos_iff.2 hw.ne_nil
  rw [hw.length] at hpos
  have hle : pos + x.width ≤ stop := by omega
  refine ⟨hle, ?_⟩
  rw [← Bytes.slice_append (Nat.le_add_right pos x.width) hle] at he
  have := List.append_inj_left he (by rw [Bytes.length_slice (by omega), hw.length]; omega)
  exact this ▸ hw

/-! ## The steps of scanning -/

theorem scanFrom_covered : ∀ (pos n : Nat) (bs : Bytes),
    scanFrom pos n bs = scanFrom (pos + n) 0 (bs.drop n)
  | _, 0, _ => rfl
  | _, n + 1, [] => by simp [scanFrom]
  | pos, n + 1, _ :: bs => by
    rw [scanFrom, scanFrom_covered, List.drop_succ_cons, Nat.add_assoc, Nat.add_comm 1 n]

theorem scan_eq_scanFrom (h : pos ≤ stop) (hstop : stop ≤ source.length) :
    scan source ⟨pos, stop⟩ = scanFrom pos 0 (source.slice pos stop) := by
  simp only [scan, Nat.min_eq_left h, Nat.min_eq_left hstop]

theorem scan_drop (h : pos ≤ source.length) :
    scan source ⟨pos, source.length⟩ = scanFrom pos 0 (source.drop pos) := by
  rw [scan_eq_scanFrom h le_rfl, Bytes.slice_length]

theorem scan_clamp (source : Bytes) (range : Span) : scan source range =
    scan source ⟨min range.start (min range.stop source.length), min range.stop source.length⟩ := by
  simp [scan]

theorem scan_nil (source : Bytes) (pos : Nat) : scan source ⟨pos, pos⟩ = [] := by
  simp [scan, Bytes.slice, scanFrom]

/-- Where a tag begins, it is found, and scanning goes on behind it. -/
theorem scan_of_beginsAt (hstop : stop ≤ source.length) (h : BeginsAt source stop pos x) :
    scan source ⟨pos, stop⟩ = x.tag pos :: scan source ⟨pos + x.width, stop⟩ := by
  have hw := width_pos_of_beginsAt h
  obtain ⟨b, hb⟩ := Bytes.slice_eq_cons (show pos < stop by have := h.1; omega) hstop
  have hread := read?_slice_of_beginsAt h
  rw [scan_eq_scanFrom (by have := h.1; omega) hstop, scan_eq_scanFrom h.1 hstop, hb]
  rw [hb] at hread
  rw [scanFrom, hread]
  simp only []
  rw [scanFrom_covered, show pos + 1 + (x.width - 1) = pos + x.width by omega]
  congr 2
  simp only [Bytes.slice, List.drop_take, List.drop_drop]
  rw [show pos + 1 + (x.width - 1) = pos + x.width by omega,
    show stop - (pos + 1) - (x.width - 1) = stop - (pos + x.width) by omega]

/-- Where no tag begins, scanning goes on at the next octet. -/
theorem scan_of_not_beginsAt (hlt : pos < stop) (hstop : stop ≤ source.length)
    (h : ∀ x, ¬ BeginsAt source stop pos x) :
    scan source ⟨pos, stop⟩ = scan source ⟨pos + 1, stop⟩ := by
  obtain ⟨b, hb⟩ := Bytes.slice_eq_cons hlt hstop
  have hread : Lexeme.read? (b :: source.slice (pos + 1) stop) = none := by
    rw [← hb, Option.eq_none_iff_forall_not_mem]
    rintro ⟨x, rest⟩ hx
    exact h x (beginsAt_of_read?_slice hstop hx)
  rw [scan_eq_scanFrom hlt.le hstop, scan_eq_scanFrom hlt hstop, hb, scanFrom, hread]

/-- Induction along the steps of scanning, from the end of the stretch. -/
theorem scan_induction (source : Bytes) {P : (pos : Nat) → pos ≤ stop → Prop} (nil : P stop le_rfl)
    (tag : ∀ pos x (hx : BeginsAt source stop pos x), P (pos + x.width) hx.1 →
      P pos ((Nat.le_add_right ..).trans hx.1))
    (text : ∀ pos (hlt : pos < stop), (∀ x, ¬ BeginsAt source stop pos x) → P (pos + 1) hlt →
      P pos hlt.le)
    (pos : Nat) (h : pos ≤ stop) : P pos h := by
  induction hn : stop - pos using Nat.strong_induction_on generalizing pos with
  | _ n ih =>
    rcases Nat.eq_or_lt_of_le h with rfl | hlt
    · exact nil
    · by_cases hx : ∃ x, BeginsAt source stop pos x
      · obtain ⟨x, hx⟩ := hx
        have hw := width_pos_of_beginsAt hx
        have hle := hx.1
        exact tag pos x hx (ih _ (by omega) _ hle rfl)
      · exact text pos hlt (fun x h => hx ⟨x, h⟩) (ih _ (by omega) _ hlt rfl)

/-! ## The tags that are found -/

variable {t : Tag}

/-- Every tag found is one that begins where its span does. -/
theorem mem_scan (hstop : stop ≤ source.length) (hpos : pos ≤ stop)
    (ht : t ∈ scan source ⟨pos, stop⟩) :
    pos ≤ t.span.start ∧ ∃ x, BeginsAt source stop t.span.start x ∧ t = x.tag t.span.start := by
  induction pos, hpos using scan_induction source with
  | nil => simp [scan_nil] at ht
  | tag pos x hx ih =>
    rw [scan_of_beginsAt hstop hx] at ht
    rcases List.mem_cons.1 ht with rfl | ht
    · exact ⟨le_rfl, x, hx, rfl⟩
    · obtain ⟨hle, hy⟩ := ih ht
      exact ⟨by omega, hy⟩
  | text pos hlt hx ih =>
    rw [scan_of_not_beginsAt hlt hstop hx] at ht
    obtain ⟨hle, hy⟩ := ih ht
    exact ⟨by omega, hy⟩

theorem scan_bounds (hstop : stop ≤ source.length) (hpos : pos ≤ stop)
    (ht : t ∈ scan source ⟨pos, stop⟩) :
    pos ≤ t.span.start ∧ t.span.start < t.span.stop ∧ t.span.stop ≤ stop := by
  obtain ⟨hle, x, hx, he⟩ := mem_scan hstop hpos ht
  have hw := width_pos_of_beginsAt hx
  have hfit := hx.1
  have hspan : t.span.stop = t.span.start + x.width := by
    rw [he]
    rfl
  omega

/-- The tags found come one behind the other. -/
theorem scan_pairwise (hstop : stop ≤ source.length) (hpos : pos ≤ stop) :
    (scan source ⟨pos, stop⟩).Pairwise fun t u => t.span.stop ≤ u.span.start := by
  induction pos, hpos using scan_induction source with
  | nil => simp [scan_nil]
  | tag pos x hx ih =>
    rw [scan_of_beginsAt hstop hx]
    exact List.pairwise_cons.2 ⟨fun u hu => (mem_scan hstop hx.1 hu).1, ih⟩
  | text pos hlt hx ih =>
    rw [scan_of_not_beginsAt hlt hstop hx]
    exact ih

/-- A tag that begins at an offset is found, or the offset lies in one that is. -/
theorem mem_span_of_beginsAt (hstop : stop ≤ source.length) (hpos : pos ≤ stop) {p : Nat}
    (hp : pos ≤ p) (hx : BeginsAt source stop p x) :
    ∃ t ∈ scan source ⟨pos, stop⟩, t.span.start ≤ p ∧ p < t.span.stop := by
  induction pos, hpos using scan_induction source with
  | nil =>
    have hw := width_pos_of_beginsAt hx
    have hfit := hx.1
    omega
  | tag pos y hy ih =>
    rw [scan_of_beginsAt hstop hy]
    rcases Nat.lt_or_ge p (pos + y.width) with hlt | hge
    · exact ⟨_, List.mem_cons_self, hp, hlt⟩
    · obtain ⟨t, ht, hspan⟩ := ih hge
      exact ⟨t, List.mem_cons_of_mem _ ht, hspan⟩
  | text pos hlt hy ih =>
    rw [scan_of_not_beginsAt hlt hstop hy]
    rcases Nat.eq_or_lt_of_le hp with rfl | hlt
    · exact absurd hx (hy x)
    · exact ih hlt

/-- Behind a found tag, the tags behind it are found. -/
theorem scan_tail (hstop : stop ≤ source.length) (hpos : pos ≤ stop) {ts : List Tag}
    (h : scan source ⟨pos, stop⟩ = t :: ts) : scan source ⟨t.span.stop, stop⟩ = ts := by
  induction pos, hpos using scan_induction source with
  | nil => simp [scan_nil] at h
  | tag pos x hx ih =>
    rw [scan_of_beginsAt hstop hx] at h
    obtain ⟨rfl, rfl⟩ := List.cons.inj h
    rfl
  | text pos hlt hx ih =>
    rw [scan_of_not_beginsAt hlt hstop hx] at h
    exact ih h

/-- Up to a found tag, the tags before it are found: a tag that the end would cut was none. -/
theorem scan_before (hstop : stop ≤ source.length) (hpos : pos ≤ stop) {ts us : List Tag}
    (h : scan source ⟨pos, stop⟩ = ts ++ t :: us) : scan source ⟨pos, t.span.start⟩ = ts := by
  have hmem : t ∈ scan source ⟨pos, stop⟩ := by simp [h]
  obtain ⟨-, hlt, hle⟩ := scan_bounds hstop hpos hmem
  have hstart : t.span.start ≤ source.length := by omega
  clear hmem hlt hle
  induction pos, hpos using scan_induction source generalizing ts with
  | nil => simp [scan_nil] at h
  | tag pos x hx ih =>
    rw [scan_of_beginsAt hstop hx] at h
    rcases ts with _ | ⟨y, ts⟩
    · obtain ⟨rfl, -⟩ := List.cons.inj h
      exact scan_nil source pos
    · obtain ⟨rfl, hts⟩ := List.cons.inj h
      have hmem : t ∈ scan source ⟨pos + x.width, stop⟩ := by simp [hts]
      rw [scan_of_beginsAt hstart ⟨(mem_scan hstop hx.1 hmem).1, hx.2⟩, ih hts]
  | text pos hlt hx ih =>
    rw [scan_of_not_beginsAt hlt hstop hx] at h
    have hmem : t ∈ scan source ⟨pos + 1, stop⟩ := by simp [h]
    obtain ⟨hfit, hspan⟩ := scan_bounds hstop hlt hmem
    have hnone : ∀ x, ¬ BeginsAt source t.span.start pos x := by
      rintro x ⟨hle, hy⟩
      exact hx x ⟨by omega, hy⟩
    rw [scan_of_not_beginsAt hfit hstart hnone]
    exact ih h

/-- Scanning any stretch of a source finds, from left to right and one behind the other, words of
the grammar, each as a tag of the kind that its keyword tells, with the lossily decoded value as its
name where it has one, and closing where it begins with a slash. None is left out that begins
outside of those found. Two words that begin at one offset are the same. -/
theorem scan_finds_grammar (source : Bytes) (start stop : Nat) :
    let e := min stop source.length
    let s := min start e
    let tags := scan source ⟨start, stop⟩
    (∀ t ∈ tags, s ≤ t.span.start ∧ t.span.start < t.span.stop ∧ t.span.stop ≤ e) ∧
    tags.Pairwise (fun t u => t.span.stop ≤ u.span.start) ∧
    (∀ t ∈ tags, ∃ x, Lexeme.Spelling x (source.slice t.span.start t.span.stop) ∧
      match x with
      | .divider _ => t.kind = .elseMark ∧ t.name = none ∧ t.closes = false
      | .opening kind _ value _ =>
        t.kind = kind ∧ t.name = some (Utf8.lossy value) ∧ t.closes = false
      | .closing kind _ => t.kind = kind ∧ t.name = none ∧ t.closes = true) ∧
    (∀ p, s ≤ p → (∀ t ∈ tags, ¬ (t.span.start ≤ p ∧ p < t.span.stop)) →
      ∀ q ≤ e, ∀ x, ¬ Lexeme.Spelling x (source.slice p q)) ∧
    ∀ p, ∀ q ≤ source.length, ∀ q' ≤ source.length, ∀ x y,
      Lexeme.Spelling x (source.slice p q) → Lexeme.Spelling y (source.slice p q') →
      x = y ∧ q = q' := by
  intro e s tags
  have he : e ≤ source.length := Nat.min_le_right ..
  have hs : s ≤ e := Nat.min_le_right ..
  have htags : tags = scan source ⟨s, e⟩ := scan_clamp source ⟨start, stop⟩
  rw [htags]
  refine ⟨fun t ht => scan_bounds he hs ht, scan_pairwise he hs, fun t ht => ?_,
    fun p hp hout q hq x hx => ?_, fun p q hq q' hq' x y hx hy => ?_⟩
  · obtain ⟨-, x, hx, heq⟩ := mem_scan he hs ht
    have hspan : t.span.stop = t.span.start + x.width := by
      rw [heq]
      rfl
    refine ⟨x, hspan ▸ hx.2, ?_⟩
    rw [heq]
    cases x <;> exact ⟨rfl, rfl, rfl⟩
  · obtain ⟨t, ht, hspan⟩ := mem_span_of_beginsAt he hs hp (beginsAt_of_spelling hq he hx).1
    exact hout t ht hspan
  · obtain ⟨hbx, rfl⟩ := beginsAt_of_spelling hq le_rfl hx
    obtain ⟨hby, rfl⟩ := beginsAt_of_spelling hq' le_rfl hy
    obtain rfl := beginsAt_unique hbx hby
    exact ⟨rfl, rfl⟩

/-- A word in a value is no tag, nor is one without its space. The last tag does not fit in. -/
example :
    let source := Bytes.ofString "<<tmpl_Incl name=\"<TMPL_ELSE>\" ><TMPL_IFname=\"b\"></tmpl_VAR>"
    scan source ⟨0, 300⟩ = [⟨.incl, ⟨1, 32⟩, some "<TMPL_ELSE>", false⟩,
        ⟨.var, ⟨49, 60⟩, none, true⟩] ∧
      scan source ⟨1, 59⟩ = [⟨.incl, ⟨1, 32⟩, some "<TMPL_ELSE>", false⟩] := by
  decide +kernel

end Tag

end Stencil
