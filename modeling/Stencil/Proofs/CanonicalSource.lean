import Stencil.Proofs.CopiedReadings
import Stencil.Proofs.JoinedSources
import Stencil.Proofs.MarkupMeaning
import Stencil.Proofs.Respelling

/-!
# The canonical form of a source

Two sources say the same if their tags say the same and the texts between them are the same
(`SaysAlike`). Then the tags of the second source are those of the first one, moved
(`Tag.exists_map_moved`). Their links are the same, and so are the faults of their blocks and the
renderings, but that faults point at the moved tags (`SaysAlike.exists_move`).

The canonical form of a source has each tag in its canonical spelling. It says the same as the
source (`scan_canonical`), and sources that say the same have the same canonical form
(`SaysAlike.canonical_eq`).
-/

namespace Stencil

namespace Tag

variable {tags tags' : List Tag}

/-! ## Tags that say the same -/

/-- Tags that say the same as others, each in a place of its own, are those tags moved. -/
theorem exists_map_moved : ∀ {tags tags' : List Tag}, tags'.map mark = tags.map mark →
    tags.Pairwise (fun t u => t.span ≠ u.span) → ∃ move, tags' = tags.map (·.moved move)
  | [], [], _, _ => ⟨id, rfl⟩
  | t :: tags, t' :: tags', hmarks, hplaces => by
    obtain ⟨hmark, hmarks⟩ := List.cons.inj hmarks
    obtain ⟨hplace, hplaces⟩ := List.pairwise_cons.1 hplaces
    obtain ⟨move, rfl⟩ := exists_map_moved hmarks hplaces
    refine ⟨Function.update move t.span t'.span, ?_⟩
    rw [List.map_cons]
    congr 1
    · obtain ⟨kind, span, name, closes⟩ := t
      obtain ⟨kind', span', name', closes'⟩ := t'
      obtain ⟨rfl, rfl, rfl⟩ := Mark.mk.inj hmark
      simp [Tag.moved]
    · refine List.map_congr_left fun u hu => ?_
      simp [Tag.moved, Function.update_of_ne (hplace u hu).symm]

theorem pairwise_span_ne (source : Bytes) :
    (scan source ⟨0, source.length⟩).Pairwise fun t u => t.span ≠ u.span := by
  refine (scan_pairwise le_rfl (Nat.zero_le _)).imp_of_mem fun {t u} ht _ hle heq => ?_
  have hlt := (scan_bounds le_rfl (Nat.zero_le _) ht).2.1
  rw [heq] at hlt hle
  exact absurd hle (Nat.not_le.2 hlt)

end Tag

theorem Template.map_tags_ofTags_moved (move : Span → Span) (tags : List Tag)
    (range range' : Span) : (ofTags range' (tags.map (·.moved move))).map (·.tags) =
      ((ofTags range tags).map fun t => t.tags.map (·.moved move)).mapError
        (·.map (·.moved move)) := by
  rw [ofTags, ofTags, Tag.blockFaults_moved]
  rcases Tag.blockFaults tags with _ | ⟨e, es⟩
  · exact congrArg Except.ok (LinkedTag.ofTags_moved move tags)
  · rfl

/-! ## Sources that say the same -/

/-- The tags of the second source say what those of the first one say, and between them are the same
texts. -/
structure SaysAlike (source source' : Bytes) : Prop where
  marks : (Tag.scan source' ⟨0, source'.length⟩).map Tag.mark =
    (Tag.scan source ⟨0, source.length⟩).map Tag.mark
  texts : Tag.texts source' 0 (Tag.scan source' ⟨0, source'.length⟩) =
    Tag.texts source 0 (Tag.scan source ⟨0, source.length⟩)

namespace Reading

variable {r : Renderer} {files : Files} {R R' : Reading} {b : Bindings}

theorem Shows.text_eq : ∀ {ss : List Bytes} {i : Nat}, R.Shows i ss → R'.Shows i ss →
    ∀ j < ss.length, R'.text (i + j) = R.text (i + j)
  | _ :: _, _, h, h', 0, _ => h'.1.trans h.1.symm
  | _ :: _, i, h, h', j + 1, hj => by
    have := Shows.text_eq h.2 h'.2 j (Nat.lt_of_succ_lt_succ hj)
    rwa [Nat.add_right_comm, Nat.add_assoc] at this

theorem Parsed.shows (h : R.Parsed) : R.Shows 0
    (Tag.texts R.page.source 0 (Tag.scan R.page.source ⟨0, R.page.source.length⟩)) := by
  rw [← h.map_toTag]
  exact shows_texts (show R.tags.drop 0 = R.tags from rfl)

/-- Pages that say the same are rendered alike. -/
theorem interpret_of_saysAlike (h : R.Parsed) (h' : R'.Parsed)
    (hp : R.page.path = none ∧ R'.page.path = none)
    (hs : SaysAlike R.page.source R'.page.source) {move : Span → Span}
    (hscan : Tag.scan R'.page.source ⟨0, R'.page.source.length⟩ =
      (Tag.scan R.page.source ⟨0, R.page.source.length⟩).map (·.moved move)) (levels : Nat) :
    interpret r files levels R' R'.whole b =
      (interpret r files levels R R.whole b).mapError (·.moved move) := by
  have hembedded : Embedded (some move) 0 R R' :=
    .of_scan move [] [] h h' (fun _ _ => hp) (by simp) (by rw [hscan]; simp)
  have hlen : R'.tags.length = R.tags.length := by
    rw [← h.length_scan, ← h'.length_scan, hscan, List.length_map]
  have htext : ∀ j, R.whole.first ≤ j → j ≤ R.whole.last → R'.text (j + 0) = R.text j := by
    intro j _ hj
    have hshows' := h'.shows
    rw [hs.texts] at hshows'
    have := h.shows.text_eq hshows' j (by
      rw [Tag.length_texts, h.length_scan]
      exact Nat.lt_succ_of_le hj)
    rwa [Nat.zero_add] at this
  have hwhole : R.whole.renamed (· + 0) = R'.whole := by
    rw [whole, whole, hlen]
    rfl
  have halike : Follows (some move) Eq (interpret r files levels R R.whole b)
      (interpret r files levels R' (R.whole.renamed (· + 0)) b) :=
    hembedded.alike (Nat.zero_le _) levels R.whole ⟨Nat.zero_le _, le_rfl⟩ (dangling_whole h)
      htext b
  rw [hwhole] at halike
  exact halike.eq_mapError

end Reading

namespace SaysAlike

variable {source source' : Bytes}

/-- Sources that say the same can be read alike and are rendered alike. -/
theorem exists_move (h : SaysAlike source source') : ∃ move : Span → Span,
    Tag.scan source' ⟨0, source'.length⟩ =
        (Tag.scan source ⟨0, source.length⟩).map (·.moved move) ∧
      (Template.parse source').map (·.tags) =
        ((Template.parse source).map fun t => t.tags.map (·.moved move)).mapError
          (·.map (·.moved move)) ∧
      ∀ (r : Renderer) (files : Files) (b : Bindings),
        (r.render files source' b).result =
          (r.render files source b).result.mapError (·.moved move) := by
  obtain ⟨move, hscan⟩ := Tag.exists_map_moved h.marks (Tag.pairwise_span_ne source)
  have hparse : (Template.parse source').map (·.tags) =
      ((Template.parse source).map fun t => t.tags.map (·.moved move)).mapError
        (·.map (·.moved move)) := by
    rw [Template.parse, Template.parseRange, hscan]
    exact Template.map_tags_ofTags_moved move _ _ _
  refine ⟨move, hscan, hparse, fun r files b => ?_⟩
  rcases ht : Template.parse source with es | t <;>
    rcases ht' : Template.parse source' with es' | t' <;> rw [ht, ht'] at hparse
  · obtain rfl := Except.error.inj hparse
    rw [Reading.result_render_of_error ht, Reading.result_render_of_error ht']
    rfl
  · cases hparse
  · cases hparse
  · rw [Reading.result_render_of_ok ht, Reading.result_render_of_ok ht']
    have hR : Reading.Parsed ⟨⟨source, none⟩, t.tags⟩ := (Reading.parsed_of_parse ht).1
    have hR' : Reading.Parsed ⟨⟨source', none⟩, t'.tags⟩ := (Reading.parsed_of_parse ht').1
    exact Reading.interpret_of_saysAlike hR hR' ⟨rfl, rfl⟩ h hscan r.maxDepth

end SaysAlike

/-! ## The canonical form -/

/-- The octets from the offset `pos` on, with the tags in their canonical spelling. -/
def canonicalFrom (source : Bytes) : (pos : Nat) → List Tag → Bytes
  | pos, [] => source.slice pos source.length
  | pos, t :: rest =>
    source.slice pos t.span.start ++
      (Bytes.ofString t.text ++ canonicalFrom source t.span.stop rest)

/-- The source with each of its tags in its canonical spelling, and the texts between them as they
are. -/
def canonical (source : Bytes) : Bytes :=
  canonicalFrom source 0 (Tag.scan source ⟨0, source.length⟩)

open Tag (scan scanFrom)

theorem canonicalFrom_of_drop {source bs : Bytes} {pos : Nat} {b : UInt8} {tags : List Tag}
    (h : source.drop pos = b :: bs) (ht : ∀ t ∈ tags, pos + 1 ≤ t.span.start) :
    canonicalFrom source pos tags = b :: canonicalFrom source (pos + 1) tags := by
  rcases tags with _ | ⟨t, tags⟩
  · rw [canonicalFrom, canonicalFrom, Bytes.slice_succ_of_drop h (Bytes.lt_length_of_drop h)]
  · rw [canonicalFrom, canonicalFrom, Bytes.slice_succ_of_drop h (ht t List.mem_cons_self)]
    rfl

theorem respelled_canonicalFrom (source : Bytes) (pos : Nat) (hpos : pos ≤ source.length) :
    Lexeme.Respelled (source.drop pos)
      (canonicalFrom source pos (scan source ⟨pos, source.length⟩)) := by
  induction pos, hpos using Tag.scan_induction source with
  | nil =>
    rw [Tag.scan_nil, canonicalFrom, Bytes.slice, List.drop_length, List.take_nil]
    exact .nil
  | tag pos x hx ih =>
    have hdrop : source.drop pos =
        source.slice pos (pos + x.width) ++ source.drop (pos + x.width) := by
      simp [Bytes.slice, ← List.drop_drop]
    have hfront : source.slice pos (x.tag pos).span.start = [] := Bytes.slice_self source pos
    rw [Tag.scan_of_beginsAt le_rfl hx, hdrop, canonicalFrom, hfront, List.nil_append]
    exact .tag hx.2 ih
  | text pos hlt hx ih =>
    have hdrop := List.drop_eq_getElem_cons hlt
    have hnone : Lexeme.read? (source[pos] :: source.drop (pos + 1)) = none := by
      rw [← hdrop, Option.eq_none_iff_forall_not_mem]
      rintro ⟨x, rest⟩ hread
      rw [← Bytes.slice_length] at hread
      exact hx x (Tag.beginsAt_of_read?_slice le_rfl hread)
    rw [Tag.scan_of_not_beginsAt hlt le_rfl hx, hdrop, canonicalFrom_of_drop hdrop
      fun t ht => (Tag.scan_bounds le_rfl hlt ht).1]
    exact .text hnone ih

/-- The tags of the canonical form say what those of the source say, with the same texts between
them, and are canonically spelled. -/
theorem scan_canonical (source : Bytes) : SaysAlike source (canonical source) ∧
    ∀ t ∈ scan (canonical source) ⟨0, (canonical source).length⟩,
      (canonical source).slice t.span.start t.span.stop = Bytes.ofString t.text := by
  have hrespelled : Lexeme.Respelled source (canonical source) :=
    respelled_canonicalFrom source 0 (Nat.zero_le _)
  obtain ⟨hmarks, htexts, hspell⟩ :=
    Tag.scanFrom_of_respelled hrespelled (show source.drop 0 = source from rfl)
      (show (canonical source).drop 0 = canonical source from rfl)
  have hscan : ∀ bs : Bytes, scan bs ⟨0, bs.length⟩ = scanFrom 0 0 bs := fun bs =>
    Tag.scan_drop (Nat.zero_le _)
  rw [← hscan source] at hmarks htexts
  rw [← hscan (canonical source)] at hmarks htexts hspell
  exact ⟨⟨hmarks, htexts⟩, hspell⟩

theorem canonicalFrom_eq {source source' : Bytes} : ∀ {tags tags' : List Tag} {pos pos' : Nat},
    tags'.map Tag.mark = tags.map Tag.mark →
      Tag.texts source' pos' tags' = Tag.texts source pos tags →
        canonicalFrom source' pos' tags' = canonicalFrom source pos tags
  | [], [], _, _, _, htexts => (List.cons.inj htexts).1
  | _ :: _, _ :: _, _, _, hmarks, htexts => by
    obtain ⟨hmark, hmarks⟩ := List.cons.inj hmarks
    obtain ⟨htext, htexts⟩ := List.cons.inj htexts
    rw [canonicalFrom, canonicalFrom, htext, Tag.text_eq_of_mark hmark,
      canonicalFrom_eq hmarks htexts]

/-- Sources that say the same have the same canonical form. -/
theorem SaysAlike.canonical_eq {source source' : Bytes} (h : SaysAlike source source') :
    canonical source' = canonical source :=
  canonicalFrom_eq h.marks h.texts

/-- The canonical form of a source has the tags of the source, moved: they say the same, each is
written in its canonical spelling, and the texts between them are the same. Reading it gives the
same links or the same faults at the moved tags. It is the canonical form of itself. And it is
rendered to the same pieces, or stops with the same fault, at the moved tags. -/
theorem render_canonical (source : Bytes) : ∃ move : Span → Span,
    scan (canonical source) ⟨0, (canonical source).length⟩ =
        (scan source ⟨0, source.length⟩).map (·.moved move) ∧
      (∀ t ∈ scan (canonical source) ⟨0, (canonical source).length⟩,
        (canonical source).slice t.span.start t.span.stop = Bytes.ofString t.text) ∧
      Tag.texts (canonical source) 0 (scan (canonical source) ⟨0, (canonical source).length⟩) =
        Tag.texts source 0 (scan source ⟨0, source.length⟩) ∧
      (Template.parse (canonical source)).map (·.tags) =
        ((Template.parse source).map fun t => t.tags.map (·.moved move)).mapError
          (·.map (·.moved move)) ∧
      canonical (canonical source) = canonical source ∧
      ∀ (r : Renderer) (files : Files) (b : Bindings),
        (r.render files (canonical source) b).result =
          (r.render files source b).result.mapError (·.moved move) := by
  obtain ⟨halike, hspell⟩ := scan_canonical source
  obtain ⟨move, hscan, hparse, hrender⟩ := halike.exists_move
  exact ⟨move, hscan, hspell, halike.texts, hparse, halike.canonical_eq, hrender⟩

end Stencil
