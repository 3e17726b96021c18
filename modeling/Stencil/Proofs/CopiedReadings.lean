import Stencil.Proofs.Copies
import Stencil.Proofs.FaultPlaces
import Stencil.Proofs.OneParse

/-!
# Copies of tags render alike

What a tag gives is told from what it says and from the regions between the tags of its block. So
the copy of a tag gives the same, if the copies of these regions do (`follows_tag`), and it takes up
the copies of the tags that the tag takes up.

So where all tags of a page stand in another page, one behind the other, regions with the same texts
are rendered alike (`Embedded.alike`). Where there is more text in front of the first tag, and other
tags come behind the last one, the page is rendered in front of what these give
(`Embedded.follows_joined`).
-/

namespace Stencil

/-- A relation of outputs that joining keeps. -/
structure Chain.Likeness (S : Chain → Chain → Prop) : Prop where
  refl : ∀ c, S c c
  append : ∀ {c c' d d'}, S c c' → S d d' → S (c ++ d) (c' ++ d')

theorem Chain.likeness_eq : Likeness Eq := ⟨fun _ => rfl, fun h h' => by rw [h, h']⟩

theorem Chain.likeness_bytes : Likeness fun c c' => c'.bytes = c.bytes :=
  ⟨fun _ => rfl, fun h h' => by simp [h, h']⟩

/-- The region lies between two tags of the block that the tag at index `i` opens. -/
def Link.Between (l : Link) (i : Nat) (g : Region) : Prop :=
  (g.first = i + 1 ∨ ∃ d ∈ l.divider, g.first = d + 1) ∧
    (g.last = l.closing ∨ g.last ∈ l.divider) ∧ g.first ≤ g.last

def Region.renamed (index : Nat → Nat) (g : Region) : Region := ⟨index g.first, index g.last⟩

namespace Reading

variable {α β : Type} {r : Renderer} {files : Files} {levels : Nat} {m : Option (Span → Span)}
  {S : Chain → Chain → Prop} {index : Nat → Nat} {R R' : Reading} {g : Region} {b : Bindings}
  {i : Nat} {t t' : LinkedTag}

/-- The second result is that of rendering a copy. -/
abbrev Follows (m : Option (Span → Span)) (S : α → β → Prop) (x : Except RenderFault α)
    (y : Except RenderFault β) : Prop :=
  Carried (m.map RenderFault.moved) S x y

/-! ## Regions from tag to tag -/

theorem interpret_self (r : Renderer) (files : Files) (levels : Nat) (R : Reading) (i : Nat)
    (b : Bindings) : interpret r files levels R ⟨i, i⟩ b = .ok (.ofBytes (R.text i)) := by
  rw [interpret_eq_walk, Region.of, List.drop_eq_nil_of_le (List.length_take_le ..), walk]

theorem interpret_step (h : R.Parsed) (hg : g.Within R.tags.length) (hd : g.dangling R.tags = [])
    (hi : g.Holds i) (ht : R.tags[i]? = some t) : interpret r files levels R ⟨i, g.last⟩ b = (do
      let x ← R.tag r files (innerAt r files levels) b i t
      let more ← interpret r files levels R ⟨x.2 + 1, g.last⟩ b
      return .ofBytes (R.text i) ++ x.1 ++ more) := by
  have hof : (⟨i, g.last⟩ : Region).of R.tags = t :: (R.tags.take g.last).drop (i + 1) := by
    obtain ⟨hlt, rfl⟩ := List.getElem?_eq_some_iff.1 ht
    have htake : i < (R.tags.take g.last).length := by
      rw [List.length_take]
      exact Nat.lt_min.2 ⟨hi.2, hlt⟩
    rw [Region.of, List.drop_eq_getElem_cons htake, List.getElem_take]
  rw [interpret_eq_walk, hof, walk]
  rcases hx : R.tag r files (innerAt r files levels) b i t with e | ⟨out, last⟩
  · rfl
  · obtain ⟨hle, hlt⟩ := tag_bounds h hd hi ht hx
    have hlen : last - i ≤ ((R.tags.take g.last).drop (i + 1)).length := by
      rw [List.length_drop, List.length_take, Nat.min_eq_left hg.2]
      omega
    simp only [Rendering.ok_bind]
    rw [walk_drop _ _ _ hlen, List.drop_drop, interpret_eq_walk, Region.of,
      show i + 1 + (last - i) = last + 1 by omega]

/-- Induction on the tags of a region that the walk comes to, from the end of the region: behind a
tag it comes to the tag that follows what the tag takes up. -/
theorem walk_induction (r : Renderer) (files : Files) (levels : Nat) (b : Bindings) (h : R.Parsed)
    (hg : g.Within R.tags.length) (hd : g.dangling R.tags = []) {P : Nat → Prop} (last : P g.last)
    (tag : ∀ i t, g.Holds i → R.tags[i]? = some t →
      (∀ x, R.tag r files (innerAt r files levels) b i t = .ok x → P (x.2 + 1)) → P i) :
    ∀ i, g.first ≤ i → i ≤ g.last → P i := by
  intro i
  induction hk : g.last - i using Nat.strong_induction_on generalizing i with
  | _ k ih =>
    intro hfirst hlast
    rcases Nat.eq_or_lt_of_le hlast with rfl | hlt
    · exact last
    · have hi := List.getElem?_eq_getElem (hlt.trans_le hg.2)
      refine tag i _ ⟨hfirst, hlt⟩ hi fun x hx => ?_
      obtain ⟨hle, hlt'⟩ := tag_bounds h hd ⟨hfirst, hlt⟩ hi hx
      exact ih _ (by omega) _ rfl (by omega) hlt'

/-! ## Faults -/

theorem path_of_pageAt {p : Page} {e : RenderFault} (hp : p.path ≠ none)
    (h : (r.pageAt files levels p b).result = .error e) : e.path? ≠ none := by
  have hplaced : r.Placed files p (r.pageAt files levels p b) :=
    Renderer.placed_parse (Page.inside_whole p) fun t ht =>
      r.placed_template files levels p t b ht
  obtain ⟨q, hq, hin⟩ := hplaced e h
  rw [hin.path]
  rcases hq.eq_or_isSome with rfl | hsome
  · exact hp
  · exact Option.isSome_iff_ne_none.1 hsome

/-- Where faults are followed, both pages are without a file. -/
def Unnamed (m : Option (Span → Span)) (R R' : Reading) : Prop :=
  ∀ move ∈ m, R.page.path = none ∧ R'.page.path = none

theorem Unnamed.follows {F : Span → Option Path → RenderFault} {U : α → β → Prop}
    (h : Unnamed m R R') (hF : ∀ move s, (F s none).moved move = F (move s) none)
    (ht : t.toTag.Copies m t'.toTag) :
    Follows m U (.error (F t.span R.page.path)) (.error (F t'.span R'.page.path)) := by
  rcases m with _ | move
  · exact .free rfl _ _
  · obtain ⟨hp, hp'⟩ := h move rfl
    rw [hp, hp', ht.span move rfl, ← hF]
    exact .error rfl _

/-! ## Tags -/

theorem follows_rounds (hS : Chain.Likeness S) {f f' : Bindings → Except RenderFault Chain}
    (h : ∀ b, Follows m S (f b) (f' b)) :
    ∀ scopes : List Bindings, Follows m S (rounds f scopes) (rounds f' scopes)
  | [] => .ok (hS.refl ∅)
  | b :: rest =>
    (h b).bind fun _ _ _ hout => (follows_rounds hS h rest).bind fun _ _ _ hmore =>
      .ok (hS.append hout hmore)

/-- Going into the second region gives what going into the first one gives. -/
structure Enters (r : Renderer) (files : Files) (levels : Nat) (m : Option (Span → Span))
    (S : Chain → Chain → Prop) (R R' : Reading) (g g' : Region) : Prop where
  enter : Follows m (fun _ _ => True) (R.enter g) (R'.enter g')
  interpret : R.enter g = .ok () → ∀ b,
    Follows m S (interpret r files levels R g b) (interpret r files levels R' g' b)

theorem follows_body (hS : Chain.Likeness S) (hp : Unnamed m R R') (ht : t.Copies m index t')
    {g' : Region} (h : ∀ fewer, levels = fewer + 1 → Enters r files fewer m S R R' g g')
    (scopes : List Bindings) :
    Follows m S (R.body r (innerAt r files levels) t g scopes)
      (R'.body r (innerAt r files levels) t' g' scopes) := by
  rcases levels with _ | fewer
  · exact hp.follows (F := .tooDeep r.maxDepth) (fun _ _ => rfl) ht.toCopies
  · obtain ⟨henter, hinterpret⟩ := h fewer rfl
    exact henter.bind fun _ _ hok _ => follows_rounds hS (hinterpret hok) scopes

theorem follows_file (hS : Chain.Likeness S) (hp : Unnamed m R R') (ht : t.Copies m index t') :
    Follows m S (R.file r files (innerAt r files levels) t b)
      (R'.file r files (innerAt r files levels) t' b) := by
  rcases levels with _ | fewer
  · exact hp.follows (F := .tooDeep r.maxDepth) (fun _ _ => rfl) ht.toCopies
  · simp only [file, innerAt, ht.nameOrEmpty]
    rcases files (r.resolve t.nameOrEmpty) with why | source
    · exact .ok (hS.refl ∅)
    · -- what stops the rendering of a file is in a file, and stays as it is
      have hresult := result_pageAt r files fewer ⟨source, some (r.resolve t.nameOrEmpty)⟩ b
      simp only
      rw [← hresult]
      refine .refl hS.refl fun f hf e he => ?_
      obtain ⟨move, -, rfl⟩ := Option.map_eq_some_iff.1 hf
      exact RenderFault.moved_of_path (path_of_pageAt (by simp) he) move

theorem branch_between {link : Link} {holds : Bool}
    (hb : branch i link holds = some g) (hle : g.first ≤ g.last) : link.Between i g := by
  unfold branch at hb
  split at hb <;> cases hb
  · exact ⟨.inl rfl, .inr ‹_›, hle⟩
  · exact ⟨.inl rfl, .inl rfl, hle⟩
  · exact ⟨.inr ⟨_, ‹_›, rfl⟩, .inl rfl, hle⟩

theorem between_bounds (h : R.Parsed) (ht : R.tags[i]? = some t) {link : Link}
    (hl : t.link = some link) (hg : link.Between i g) :
    i < g.first ∧ g.last ≤ link.closing ∧ g.Within R.tags.length := by
  obtain ⟨hlt, hlen, hdiv⟩ := h.link_bounds ht hl
  obtain ⟨hfirst, hlast, hle⟩ := hg
  have hlast : g.last ≤ link.closing := by
    rcases hlast with h | hd
    · exact h.le
    · exact (hdiv _ hd).2.le
  refine ⟨?_, hlast, hle, by omega⟩
  rcases hfirst with h | ⟨d, hd, h⟩
  · omega
  · have := hdiv d hd
    omega

theorem branch_renamed {link : Link} (hi : index (i + 1) = index i + 1)
    (hd : ∀ d ∈ link.divider, index (d + 1) = index d + 1) (holds : Bool) :
    branch (index i) (link.renamed index) holds = (branch i link holds).map (·.renamed index) := by
  rcases hdiv : link.divider with _ | d <;> rcases holds <;>
    simp [branch, Link.renamed, Region.renamed, hdiv, hi]
  exact (hd d hdiv).symm

section Tag

variable (hS : Chain.Likeness S) (hp : Unnamed m R R') (h : R.Parsed) (hi : R.tags[i]? = some t)
  (ht : t.Copies m index t')
  (hnext : ∀ link, t.link = some link → index (i + 1) = index i + 1 ∧
    ∀ d ∈ link.divider, index (d + 1) = index d + 1)
  (hbody : ∀ fewer, levels = fewer + 1 → ∀ link, t.link = some link → ∀ g, link.Between i g →
    Enters r files fewer m S R R' g (g.renamed index))

include hp ht in
theorem follows_block {shown shown' : Link → Except RenderFault Chain}
    (hshown : ∀ link, t.link = some link →
      Follows m S (shown link) (shown' (link.renamed index))) :
    Follows m (fun x y => S x.1 y.1 ∧ y.2 = index x.2) (R.block t shown) (R'.block t' shown') := by
  unfold block
  rw [ht.link, ht.kind]
  rcases hl : t.link with _ | link
  · exact hp.follows (F := fun s path => .blocks [.unclosed t.kind s] path) (fun _ _ => rfl)
      ht.toCopies
  · exact (hshown link hl).bind fun _ _ _ hout => .ok ⟨hout, rfl⟩

include hS hp h hi ht hnext hbody

theorem follows_conditional {link : Link} (hl : t.link = some link) :
    Follows m S (R.conditional r (innerAt r files levels) b i t link)
      (R'.conditional r (innerAt r files levels) b (index i) t' (link.renamed index)) := by
  unfold conditional
  rw [branch_renamed (hnext link hl).1 (hnext link hl).2, ht.nameOrEmpty, ht.kind]
  rcases hb : branch i link _ with _ | g
  · exact .ok (hS.refl ∅)
  · have hle := (branch_bounds h hi hl hb).2.1
    exact follows_body hS hp ht
      (fun fewer hf => hbody fewer hf link hl g (branch_between hb hle)) [b]

theorem follows_loop {link : Link} (hl : t.link = some link) :
    Follows m S (R.loop r (innerAt r files levels) b i t link)
      (R'.loop r (innerAt r files levels) b (index i) t' (link.renamed index)) := by
  unfold loop
  rw [ht.nameOrEmpty]
  simp only
  split_ifs
  · exact .ok (hS.refl ∅)
  · have hbetween : link.Between i ⟨i + 1, link.closing⟩ :=
      ⟨.inl rfl, .inl rfl, (h.link_bounds hi hl).1⟩
    refine follows_body hS hp ht (fun fewer hf => ?_) _
    have henters := hbody fewer hf link hl _ hbetween
    rwa [Region.renamed, (hnext link hl).1] at henters

/-- The copy of a tag gives what the tag gives, and takes up the copies. -/
theorem follows_tag : Follows m (fun x y => S x.1 y.1 ∧ y.2 = index x.2)
    (R.tag r files (innerAt r files levels) b i t)
    (R'.tag r files (innerAt r files levels) b (index i) t') := by
  have hconditional := follows_block hp ht fun link hl =>
    follows_conditional (b := b) hS hp h hi ht hnext hbody hl
  have hloop := follows_block hp ht fun link hl =>
    follows_loop (b := b) hS hp h hi ht hnext hbody hl
  have hfile : Follows m S (R.file r files (innerAt r files levels) t b)
      (R'.file r files (innerAt r files levels) t' b) := follows_file hS hp ht
  unfold tag
  rw [ht.closes, ht.kind, ht.nameOrEmpty]
  split_ifs
  · exact hp.follows (F := .strayClose t.kind) (fun _ _ => rfl) ht.toCopies
  · cases t.kind with
    | elseMark => exact hp.follows (F := .strayElse) (fun _ _ => rfl) ht.toCopies
    | var => exact .ok ⟨hS.refl _, rfl⟩
    | incl | includes => exact hfile.bind fun _ _ _ hout => .ok ⟨hout, rfl⟩
    | ifBlock | unlessBlock => exact hconditional
    | loopBlock => exact hloop

end Tag

/-! ## A page inside another one -/

/-- The octets, in front of the first of all tags. -/
def atFront (p : Bytes) (j : Nat) : Bytes := if j = 0 then p else []

@[simp] theorem atFront_nil (j : Nat) : atFront [] j = [] := ite_self _

@[simp] theorem atFront_zero (p : Bytes) : atFront p 0 = p := rfl

theorem atFront_of_pos {j : Nat} (h : 0 < j) (p : Bytes) : atFront p j = [] := if_neg h.ne'

/-- From the index `n` on, the tags of the second page are copies of those of the first one. -/
structure Embedded (m : Option (Span → Span)) (n : Nat) (R R' : Reading) : Prop where
  parsed : R.Parsed
  parsed' : R'.Parsed
  unnamed : Unnamed m R R'
  tags : ∀ i t, R.tags[i]? = some t → ∃ t', R'.tags[i + n]? = some t' ∧ t.Copies m (· + n) t'

theorem enter_eq_ok_iff : R.enter g = .ok () ↔ g.dangling R.tags = [] := by
  unfold enter
  rcases g.dangling R.tags with _ | ⟨e, es⟩ <;> simp

namespace Embedded

variable {n : Nat}

theorem of_scan (move : Span → Span) (xs zs : List Tag) (h : R.Parsed) (h' : R'.Parsed)
    (hp : Unnamed m R R') (hm : ∀ f ∈ m, f = move)
    (hscan : Tag.scan R'.page.source ⟨0, R'.page.source.length⟩ =
      xs ++ (Tag.scan R.page.source ⟨0, R.page.source.length⟩).map (·.moved move) ++ zs) :
    Embedded m xs.length R R' := by
  refine ⟨h, h', hp, fun i t ht => ?_⟩
  rw [h.tags_eq] at ht
  rw [h'.tags_eq, hscan]
  exact LinkedTag.copies_between hm (Template.ofTags_eq_ok h).2.2 ht xs zs

theorem length_le (h : Embedded m n R R') (hne : 0 < R.tags.length) :
    R.tags.length + n ≤ R'.tags.length := by
  obtain ⟨t', ht', -⟩ := h.tags _ _ (List.getElem?_eq_getElem (Nat.sub_lt hne Nat.one_pos))
  have := (List.getElem?_eq_some_iff.1 ht').1
  omega

theorem within (h : Embedded m n R R') (hg : g.Within R.tags.length) (hn : n ≤ R'.tags.length) :
    (g.renamed (· + n)).Within R'.tags.length := by
  refine ⟨Nat.add_le_add_right hg.1 n, ?_⟩
  have hlast := hg.2
  rcases Nat.eq_zero_or_pos R.tags.length with h0 | hne
  · simp only [Region.renamed]
    omega
  · have := h.length_le hne
    simp only [Region.renamed]
    omega

theorem forall₂_of (h : Embedded m n R R') (hg : g.Within R.tags.length)
    (hn : n ≤ R'.tags.length) : List.Forall₂ (LinkedTag.Copies m (· + n)) (g.of R.tags)
      ((g.renamed (· + n)).of R'.tags) := by
  rw [List.forall₂_iff_get]
  constructor
  · rw [Region.length_of hg, Region.length_of (h.within hg hn)]
    simp only [Region.renamed]
    omega
  · intro k hk hk'
    have hget : (g.of R.tags)[k]? = some _ := List.getElem?_eq_getElem hk
    have hget' : ((g.renamed (· + n)).of R'.tags)[k]? = some _ := List.getElem?_eq_getElem hk'
    rw [Region.getElem?_of] at hget hget'
    split_ifs at hget hget'
    obtain ⟨t', ht', hc⟩ := h.tags _ _ hget
    rw [Nat.add_right_comm, show g.first + n = (g.renamed (· + n)).first from rfl, hget'] at ht'
    obtain rfl := Option.some.inj ht'
    exact hc

theorem dangling (h : Embedded m n R R') (hg : g.Within R.tags.length) (hn : n ≤ R'.tags.length) :
    (g.dangling R.tags = [] → (g.renamed (· + n)).dangling R'.tags = []) ∧
      ∀ move ∈ m, (g.renamed (· + n)).dangling R'.tags =
        (g.dangling R.tags).map (·.moved move) := by
  have hall := h.forall₂_of hg hn
  have hholds : ∀ c, (g.renamed (· + n)).Holds (c + n) ↔ g.Holds c := by
    intro c
    simp only [Region.Holds, Region.renamed]
    omega
  unfold Region.dangling
  generalize g.of R.tags = us, (g.renamed (· + n)).of R'.tags = us' at hall
  induction hall with
  | nil => simp
  | @cons t t' ts ts' ht _ ih =>
    rcases hl : t.link with _ | link
    · simpa [List.filterMap_cons, hl, ht.link] using ih
    · by_cases hin : g.Holds link.closing
      · simpa [List.filterMap_cons, hl, ht.link, Link.renamed, hholds, hin] using ih
      · refine ⟨by simp [hl, hin], fun move hm => ?_⟩
        simp only [List.filterMap_cons, hl, ht.link, Option.map_some, Link.renamed, hholds, hin,
          if_false, ih.2 move hm, List.map_cons, BlockFault.moved, ht.kind, ht.span move hm]

theorem follows_enter (h : Embedded m n R R') (hg : g.Within R.tags.length)
    (hn : n ≤ R'.tags.length) :
    Follows m (fun _ _ => True) (R.enter g) (R'.enter (g.renamed (· + n))) := by
  obtain ⟨hnil, hmoved⟩ := h.dangling hg hn
  unfold enter
  rcases hd : g.dangling R.tags with _ | ⟨e, es⟩
  · rw [hnil hd]
    exact .ok trivial
  · rcases m with _ | move
    · exact .free rfl _ _
    · obtain ⟨hp, hp'⟩ := h.unnamed move rfl
      rw [hmoved move rfl, hd, hp, hp']
      exact .error rfl (RenderFault.blocks (e :: es) none)

/-- With so many levels left, regions with the same texts are rendered alike. -/
def Alike (r : Renderer) (files : Files) (m : Option (Span → Span)) (n : Nat) (R R' : Reading)
    (levels : Nat) : Prop :=
  ∀ g : Region, g.Within R.tags.length → g.dangling R.tags = [] →
    (∀ j, g.first ≤ j → j ≤ g.last → R'.text (j + n) = R.text j) →
      ∀ b, Follows m Eq (interpret r files levels R g b)
        (interpret r files levels R' (g.renamed (· + n)) b)

theorem follows_tag (h : Embedded m n R R') (hn : n ≤ R'.tags.length)
    (hdeeper : ∀ fewer, levels = fewer + 1 → Alike r files m n R R' fewer)
    (hi : R.tags[i]? = some t) (ht : t.Copies m (· + n) t')
    (htext : ∀ link, t.link = some link → ∀ j, i < j → j ≤ link.closing →
      R'.text (j + n) = R.text j) :
    Follows m (fun x y => x.1 = y.1 ∧ y.2 = x.2 + n) (R.tag r files (innerAt r files levels) b i t)
      (R'.tag r files (innerAt r files levels) b (i + n) t') := by
  refine Reading.follows_tag Chain.likeness_eq h.unnamed h.parsed hi ht ?_ ?_
  · exact fun link _ => ⟨Nat.add_right_comm .., fun d _ => Nat.add_right_comm ..⟩
  · intro fewer hf link hl g hg
    obtain ⟨hfirst, hlast, hwithin⟩ := between_bounds h.parsed hi hl hg
    refine ⟨h.follows_enter hwithin hn, fun hok b => ?_⟩
    exact hdeeper fewer hf g hwithin (enter_eq_ok_iff.1 hok)
      (fun j hj hj' => htext link hl j (by omega) (by omega)) b

theorem alike_of_deeper (h : Embedded m n R R') (hn : n ≤ R'.tags.length)
    (hdeeper : ∀ fewer, levels = fewer + 1 → Alike r files m n R R' fewer) :
    Alike r files m n R R' levels := by
  intro g hg hd htext b
  have hg' := h.within hg hn
  have hd' := (h.dangling hg hn).1 hd
  suffices hfrom : ∀ i, g.first ≤ i → i ≤ g.last →
      Follows m Eq (interpret r files levels R ⟨i, g.last⟩ b)
        (interpret r files levels R' ⟨i + n, g.last + n⟩ b) from hfrom g.first le_rfl hg.1
  refine walk_induction r files levels b h.parsed hg hd ?_ fun i t hi ht ih => ?_
  · rw [interpret_self, interpret_self, htext g.last hg.1 le_rfl]
    exact .ok rfl
  · obtain ⟨hfirst, hlast⟩ := hi
    obtain ⟨t', ht', hc⟩ := h.tags i t ht
    have hholds : (g.renamed (· + n)).Holds (i + n) :=
      ⟨Nat.add_le_add_right hfirst n, Nat.add_lt_add_right hlast n⟩
    rw [interpret_step h.parsed hg hd ⟨hfirst, hlast⟩ ht,
      show g.last + n = (g.renamed (· + n)).last from rfl,
      interpret_step h.parsed' hg' hd' hholds ht', htext i hfirst hlast.le]
    have htag := h.follows_tag (b := b) hn hdeeper ht hc fun link hl j hj hj' =>
      htext j (by omega) (by have := (link_holds hd ⟨hfirst, hlast⟩ ht hl).2; omega)
    refine htag.bind fun x y hx hxy => ?_
    obtain ⟨hout, hlast'⟩ := hxy
    rw [hout, hlast', Nat.add_right_comm]
    exact (ih x hx).bind fun c c' _ hc => .ok (by rw [hc])

/-- Regions with the same texts are rendered alike. -/
theorem alike (h : Embedded m n R R') (hn : n ≤ R'.tags.length) : ∀ levels : Nat,
    Alike r files m n R R' levels
  | 0 => h.alike_of_deeper hn fun _ hf => by cases hf
  | levels + 1 => h.alike_of_deeper hn fun fewer hf => by
    obtain rfl := Nat.succ.inj hf
    exact h.alike hn levels

theorem bind_in_front (p : Bytes) (out : Chain) (x : Except RenderFault Chain)
    (z : Except RenderFault Bytes) : (do
      let c ← (do
        let more ← x
        return .ofBytes p ++ out ++ more)
      let y ← z
      return c.bytes ++ y) = (do
    let w ← (do
      let c ← x
      let y ← z
      return c.bytes ++ y)
    return p ++ out.bytes ++ w) := by
  simp only [bind_assoc, pure_bind, Chain.bytes_append, Chain.bytes_ofBytes, List.append_assoc]

/-- From its tag `j` on, the whole page is rendered inside a region of the other one: `p` is the
text in front of it there, and `z` what comes behind it. -/
theorem follows_joined (h : Embedded m n R R') {g' : Region} (hg' : g'.Within R'.tags.length)
    (hd' : g'.dangling R'.tags = []) (hn : g'.first ≤ n) (hlast : R.tags.length + n ≤ g'.last)
    {p : Bytes} {z : Except RenderFault Bytes}
    (htext : ∀ j < R.tags.length, R'.text (j + n) = atFront p j ++ R.text j)
    (hend : Follows m
      (fun y c => c.bytes = atFront p R.tags.length ++ R.text R.tags.length ++ y) z
      (interpret r files levels R' ⟨R.tags.length + n, g'.last⟩ b)) :
    ∀ j ≤ R.tags.length, Follows m (fun w c => c.bytes = atFront p j ++ w)
      (do let x ← interpret r files levels R ⟨j, R.tags.length⟩ b
          let y ← z
          return x.bytes ++ y)
      (interpret r files levels R' ⟨j + n, g'.last⟩ b) := by
  have hnlen : n ≤ R'.tags.length := by
    have := hg'.2
    omega
  have hwhole : R.whole.Within R.tags.length := ⟨Nat.zero_le _, le_rfl⟩
  have hd := dangling_whole h.parsed
  suffices hfrom : ∀ j, R.whole.first ≤ j → j ≤ R.whole.last →
      Follows m (fun w c => c.bytes = atFront p j ++ w)
        (do let x ← interpret r files levels R ⟨j, R.whole.last⟩ b
            let y ← z
            return x.bytes ++ y)
        (interpret r files levels R' ⟨j + n, g'.last⟩ b) from
    fun j hj => hfrom j (Nat.zero_le j) hj
  refine walk_induction r files levels b h.parsed hwhole hd ?_ fun j t hj ht ih => ?_
  · rw [interpret_self, Rendering.ok_bind, ← bind_pure (interpret r files levels R' _ b)]
    refine hend.bind fun y c _ hc => .ok ?_
    rw [hc, Chain.bytes_ofBytes, List.append_assoc]
    rfl
  · have hlt : j < R.tags.length := hj.2
    obtain ⟨t', ht', hc⟩ := h.tags j t ht
    have hinside : ∀ link, t.link = some link → ∀ j', j < j' → j' ≤ link.closing →
        R'.text (j' + n) = R.text j' := by
      intro link hl j' hj' hle
      have := (h.parsed.link_bounds ht hl).2.1
      rw [htext j' (by omega), atFront_of_pos (by omega), List.nil_append]
    rw [interpret_step h.parsed hwhole hd hj ht,
      interpret_step h.parsed' hg' hd' ⟨by omega, by omega⟩ ht', htext j hlt, bind_assoc]
    refine (h.follows_tag hnlen (fun fewer _ => h.alike hnlen fewer) ht hc hinside).bind
      fun x y hx hxy => ?_
    obtain ⟨hout, hlast'⟩ := hxy
    have hrest := ih x hx
    rw [atFront_of_pos (Nat.succ_pos _), Nat.add_right_comm, ← hlast'] at hrest
    rw [bind_in_front]
    refine hrest.bind fun w c _ hc => .ok ?_
    rw [Chain.bytes_append, Chain.bytes_append, Chain.bytes_ofBytes, hc, hout]
    simp only [List.append_assoc, List.nil_append]

end Embedded

end Reading

end Stencil
