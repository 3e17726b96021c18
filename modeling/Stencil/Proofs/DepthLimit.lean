import Stencil.Proofs.OneParse
import Stencil.Proofs.OpenPasses

/-!
# The limit on open levels

The limit bounds every rendering, also of files that include themselves or each other, and is not
seen otherwise (`limit_bounds_page`). A rendering that does not stop at the limit does the same
under every higher one. And a page that includes nothing stops at it only if more blocks lie in
each other than the limit allows.
-/

namespace Stencil

/-- The rendering stops at the limit. -/
def Rendering.TooDeep {α : Type} (x : Rendering α) : Prop :=
  ∃ limit span path, x.result = .error (.tooDeep limit span path)

/-- The same, up to the limit at which the first one may stop. -/
def Rendering.UpTo {α : Type} (x y : Rendering α) : Prop := x.TooDeep ∨ x = y

namespace Rendering.UpTo

variable {α β : Type} {x y : Rendering α}

theorem refl (x : Rendering α) : x.UpTo x := .inr rfl

theorem bind {f g : α → Rendering β} (h : x.UpTo y) (hf : ∀ a, (f a).UpTo (g a)) :
    (x >>= f).UpTo (y >>= g) := by
  rcases h with ⟨limit, span, path, h⟩ | rfl
  · exact .inl ⟨limit, span, path, by rw [result_bind, h, error_bind]⟩
  · rcases hx : x.result with e | a
    · refine .inr ?_
      show x.andThen f = x.andThen g
      simp only [andThen, hx]
    · rcases hf a with ⟨limit, span, path, h⟩ | h
      · exact .inl ⟨limit, span, path, by rw [result_bind, hx, ok_bind, h]⟩
      · refine .inr ?_
        show x.andThen f = x.andThen g
        simp only [andThen, hx, h]

end Rendering.UpTo

namespace Renderer

variable {r : Renderer} {files : Files} {limit : Nat} {deeper deeper' : Option Deeper}

/-- Where the first way leads down, the other one leads down as well, and to the same. -/
def Raised (deeper deeper' : Option Deeper) : Prop :=
  ∀ d ∈ deeper, ∃ d' ∈ deeper', ∀ p t b, (d p t b).UpTo (d' p t b)

theorem upTo_forEach {d d' : Deeper} (h : ∀ p t b, (d p t b).UpTo (d' p t b)) (p : Page)
    (t : Template) : ∀ scopes : List Bindings, (d.forEach p t scopes).UpTo (d'.forEach p t scopes)
  | [] => .refl _
  | b :: rest => (h p t b).bind fun _ => (upTo_forEach h p t rest).bind fun _ => .refl _

theorem upTo_perform (h : Raised deeper deeper') (p : Page) (tag : Tag) (b : Bindings)
    (action : Action) : (r.perform files deeper p tag b action).UpTo
      ({ r with maxDepth := limit }.perform files deeper' p tag b action) := by
  cases action with
  | emit value => exact .refl _
  | each body scopes =>
    rcases deeper with _ | d
    · exact .inl ⟨r.maxDepth, tag.span, p.path, rfl⟩
    · obtain ⟨d', rfl, hd⟩ := h d rfl
      exact (Rendering.UpTo.refl (p.parse body)).bind fun t => upTo_forEach hd p t scopes
  | paste name =>
    rcases deeper with _ | d
    · exact .inl ⟨r.maxDepth, tag.span, p.path, rfl⟩
    · obtain ⟨d', rfl, hd⟩ := h d rfl
      have hpath : { r with maxDepth := limit }.resolve name = r.resolve name := rfl
      simp only [perform, descend, hpath]
      rcases files (r.resolve name) with why | source
      · exact .refl _
      · let file : Page := ⟨source, some (r.resolve name)⟩
        exact (Rendering.UpTo.refl (.note (.includedFile (r.resolve name) source.length))).bind
          fun _ => (Rendering.UpTo.refl file.parseAll).bind fun t => hd file t b

theorem upTo_walk (h : Raised deeper deeper') (p : Page) (t : Template) (b : Bindings) :
    ∀ (rest : List LinkedTag) (cursor : Nat), (r.walk files deeper p t b cursor rest).UpTo
      ({ r with maxDepth := limit }.walk files deeper' p t b cursor rest)
  | [], _ => .refl _
  | tag :: rest, cursor => by
    rw [walk, walk]
    split_ifs
    · exact upTo_walk h p t b rest cursor
    · refine (Rendering.UpTo.refl _).bind fun x => ?_
      refine (upTo_perform h p tag.toTag b x.1).bind fun out => ?_
      exact (upTo_walk h p t b rest x.2).bind fun _ => .refl _

/-- With more levels left, a template is rendered the same, up to the limit. -/
theorem upTo_template (r : Renderer) (files : Files) (limit : Nat) :
    ∀ {levels levels' : Nat}, levels ≤ levels' → ∀ p t b,
      (r.template files levels p t b).UpTo
        ({ r with maxDepth := limit }.template files levels' p t b)
  | 0, 0, _, p, t, b => upTo_walk (fun _ hd => by cases hd) p t b _ _
  | 0, _ + 1, _, p, t, b => upTo_walk (fun _ hd => by cases hd) p t b _ _
  | levels + 1, levels' + 1, h, p, t, b => by
    have hraised : Raised (some (r.template files levels))
        (some ({ r with maxDepth := limit }.template files levels')) := by
      intro d hd
      cases hd
      exact ⟨_, rfl, upTo_template r files limit (Nat.le_of_succ_le_succ h)⟩
    exact upTo_walk hraised p t b _ _

theorem upTo_page (r : Renderer) (files : Files) {limit : Nat} (h : r.maxDepth ≤ limit) (p : Page)
    (b : Bindings) : (r.page files p b).UpTo ({ r with maxDepth := limit }.page files p b) :=
  (Rendering.UpTo.refl _).bind fun t => upTo_template r files limit h p t b

end Renderer

/-! ## Blocks that lie in each other -/

/-- Blocks, by the indices of their opening tags, each of them linked and inside of the one before,
and all of them inside a region. -/
def LinkedTag.Nests (tags : List LinkedTag) : Region → List Nat → Prop
  | _, [] => True
  | g, i :: inner => ∃ t link, tags[i]? = some t ∧ t.link = some link ∧
      g.Holds i ∧ g.Holds link.closing ∧ Nests tags ⟨i + 1, link.closing⟩ inner

theorem LinkedTag.Nests.mono {tags : List LinkedTag} {g g' : Region} {chain : List Nat}
    (h : Nests tags g chain) (hfirst : g'.first ≤ g.first) (hlast : g.last ≤ g'.last) :
    Nests tags g' chain := by
  cases chain with
  | nil => trivial
  | cons i inner =>
    obtain ⟨t, link, ht, hl, hi, hc, hinner⟩ := h
    exact ⟨t, link, ht, hl, ⟨hfirst.trans hi.1, hi.2.trans_le hlast⟩,
      ⟨hfirst.trans hc.1, hc.2.trans_le hlast⟩, hinner⟩

/-- Each block has two tags. -/
theorem LinkedTag.Nests.length_le {tags : List LinkedTag} : ∀ {chain : List Nat} {g : Region},
    Nests tags g chain → 2 * chain.length ≤ g.last - g.first + 1
  | [], _, _ => Nat.zero_le _
  | [i], g, ⟨_, _, _, _, hi, _⟩ => by
    have := hi.1
    have := hi.2
    simp only [List.length_singleton]
    omega
  | i :: j :: inner, g, ⟨_, link, _, _, hi, hc, hinner⟩ => by
    have ih := hinner.length_le
    obtain ⟨_, _, _, _, hj, -⟩ := hinner
    have := hi.1
    have := hc.2
    have := hj.1
    have := hj.2
    simp only [List.length_cons] at ih ⊢
    omega

/-- No level is missing. -/
def Shallow {α : Type} (x : Except RenderFault α) : Prop :=
  ∀ limit span path, x ≠ .error (.tooDeep limit span path)

namespace Shallow

variable {α β : Type}

theorem ok (a : α) : Shallow (.ok a) := nofun

theorem bind {x : Except RenderFault α} {f : α → Except RenderFault β} (h : Shallow x)
    (hf : ∀ a, x = .ok a → Shallow (f a)) : Shallow (x >>= f) := by
  rcases x with e | a
  · intro limit span path he
    exact h limit span path (congrArg Except.error (Except.error.inj he))
  · exact hf a rfl

theorem blocks (es : List BlockFault) (path : Option Path) :
    Shallow (.error (.blocks es path) : Except RenderFault α) := nofun

end Shallow

namespace Reading

variable {r : Renderer} {files : Files} {levels : Nat} {inner : Option Inner} {R : Reading}
  {g g' : Region} {b : Bindings} {i : Nat} {t : LinkedTag}

/-- With so many levels left, no level is missing in a region in which no more blocks lie in each
other. -/
def Suffices (R : Reading) (levels : Nat) (inner : Inner) : Prop :=
  ∀ (g : Region) (b : Bindings), g.Within R.tags.length → g.dangling R.tags = [] →
    (∀ chain, LinkedTag.Nests R.tags g chain → chain.length ≤ levels) → Shallow (inner R g b)

/-- The way one level down is closed where no level is left. -/
def Enough (R : Reading) (levels : Nat) : Option Inner → Prop
  | none => levels = 0
  | some inner => ∃ fewer, levels = fewer + 1 ∧ R.Suffices fewer inner

theorem shallow_rounds {f : Bindings → Except RenderFault Chain} (h : ∀ b, Shallow (f b)) :
    ∀ scopes : List Bindings, Shallow (rounds f scopes)
  | [] => .ok _
  | b :: rest => (h b).bind fun _ _ => (shallow_rounds h rest).bind fun _ _ => .ok _

section

variable (henough : R.Enough levels inner) (hd : g.dangling R.tags = [])
  (hchain : ∀ chain, LinkedTag.Nests R.tags g chain → chain.length ≤ levels) (hi : g.Holds i)
  (ht : R.tags[i]? = some t)

include henough hd hchain hi ht

/-- The blocks of a body lie in the block of the body, which is one more. -/
theorem shallow_body {link : Link} (hl : t.link = some link) (hwithin : g'.Within R.tags.length)
    (hfirst : i + 1 ≤ g'.first) (hlast : g'.last ≤ link.closing) (scopes : List Bindings) :
    Shallow (R.body r inner t g' scopes) := by
  have hlonger : ∀ chain, LinkedTag.Nests R.tags g' chain → chain.length + 1 ≤ levels :=
    fun chain hnests => hchain (i :: chain)
      ⟨t, link, ht, hl, hi, link_holds hd hi ht hl, hnests.mono hfirst hlast⟩
  unfold body
  rcases inner with _ | inner
  · have hone := hlonger [] trivial
    obtain rfl : levels = 0 := henough
    cases hone
  · obtain ⟨fewer, rfl, hsuffices⟩ := henough
    simp only [enter]
    rcases hdangling : g'.dangling R.tags with _ | ⟨e, es⟩
    · refine shallow_rounds (fun b => ?_) scopes
      exact hsuffices g' b hwithin hdangling fun chain hnests =>
        Nat.le_of_succ_le_succ (hlonger chain hnests)
    · exact .blocks _ _

theorem shallow_tag (h : R.Parsed) (hpaste : t.kind ≠ .incl ∧ t.kind ≠ .includes) :
    Shallow (R.tag r files inner b i t) := by
  have hblock : ∀ shown, (∀ link, t.link = some link → Shallow (shown link)) →
      Shallow (R.block t shown) := by
    intro shown hshown
    unfold block
    rcases hl : t.link with _ | link
    · exact .blocks _ _
    · exact (hshown link hl).bind fun _ _ => .ok _
  have hconditional : Shallow (R.block t (R.conditional r inner b i t)) := by
    refine hblock _ fun link hl => ?_
    unfold conditional
    rcases hb : branch i link _ with _ | g'
    · exact .ok _
    · obtain ⟨hfirst, -, hlast⟩ := branch_bounds h ht hl hb
      exact shallow_body henough hd hchain hi ht hl (branch_within h ht hl hb) hfirst hlast [b]
  have hloop : Shallow (R.block t (R.loop r inner b i t)) := by
    refine hblock _ fun link hl => ?_
    unfold loop
    simp only
    split_ifs
    · exact .ok _
    · obtain ⟨hlt, hlen, -⟩ := h.link_bounds ht hl
      have hwithin : Region.Within ⟨i + 1, link.closing⟩ R.tags.length := ⟨hlt, hlen.le⟩
      exact shallow_body henough hd hchain hi ht hl hwithin le_rfl le_rfl _
  unfold tag
  split_ifs
  · exact nofun
  · cases hk : t.kind with
    | elseMark => exact nofun
    | var => exact .ok _
    | incl => exact absurd hk hpaste.1
    | includes => exact absurd hk hpaste.2
    | ifBlock => exact hconditional
    | unlessBlock => exact hconditional
    | loopBlock => exact hloop

end

theorem shallow_walk (henough : R.Enough levels inner) (h : R.Parsed)
    (hd : g.dangling R.tags = [])
    (hchain : ∀ chain, LinkedTag.Nests R.tags g chain → chain.length ≤ levels)
    (hpaste : ∀ t ∈ R.tags, t.kind ≠ .incl ∧ t.kind ≠ .includes) :
    ∀ (rest : List LinkedTag) (i taken : Nat), g.first ≤ i →
      (R.tags.take g.last).drop i = rest → Shallow (R.walk r files inner b i taken rest)
  | [], i, taken, _, _ => by
    rw [walk]
    exact .ok _
  | t :: rest, i, taken + 1, hfirst, hrest => by
    rw [walk]
    exact shallow_walk henough h hd hchain hpaste rest (i + 1) taken (Nat.le_succ_of_le hfirst)
      (of_drop_eq_cons hrest).2
  | t :: rest, i, 0, hfirst, hrest => by
    obtain ⟨ht, hrest⟩ := of_drop_eq_cons hrest
    have hlast : i < g.last := by
      have := (List.getElem?_eq_some_iff.1 ht).1
      rw [List.length_take] at this
      omega
    rw [List.getElem?_take, if_pos hlast] at ht
    rw [walk]
    refine (shallow_tag henough hd hchain ⟨hfirst, hlast⟩ ht h
      (hpaste t (List.mem_of_getElem? ht))).bind fun x _ => ?_
    exact (shallow_walk henough h hd hchain hpaste rest (i + 1) (x.2 - i)
      (Nat.le_succ_of_le hfirst) hrest).bind fun _ _ => .ok _

/-- Without files, the levels that are left suffice for as many blocks that lie in each other. -/
theorem suffices_interpret (r : Renderer) (files : Files) (h : R.Parsed)
    (hpaste : ∀ t ∈ R.tags, t.kind ≠ .incl ∧ t.kind ≠ .includes) : ∀ levels : Nat,
      R.Suffices levels (interpret r files levels)
  | 0, g, b, _, hd, hchain => by
    have henough : R.Enough 0 none := rfl
    exact shallow_walk henough h hd hchain hpaste _ g.first 0 le_rfl rfl
  | levels + 1, g, b, _, hd, hchain => by
    have henough : R.Enough (levels + 1) (some (interpret r files levels)) :=
      ⟨levels, rfl, suffices_interpret r files h hpaste levels⟩
    exact shallow_walk henough h hd hchain hpaste _ g.first 0 le_rfl rfl

end Reading

/-- A page that includes nothing, and in which no more blocks lie in each other than levels may be
open, does not stop at the limit. -/
theorem Renderer.not_tooDeep_page (r : Renderer) (files : Files) (p : Page) (b : Bindings)
    (h : ∀ t, Template.parse p.source = .ok t →
      (∀ u ∈ t.tags, u.kind ≠ .incl ∧ u.kind ≠ .includes) ∧
      ∀ chain, LinkedTag.Nests t.tags ⟨0, t.tags.length⟩ chain → chain.length ≤ r.maxDepth) :
    ¬ (r.page files p b).TooDeep := by
  rintro ⟨limit, span, path, hdeep⟩
  have hshallow : Shallow (r.page files p b).result := by
    rw [Reading.result_page]
    unfold Reading.ofPage
    rcases ht : Template.parse p.source with es | t
    · exact .blocks _ _
    · obtain ⟨hpaste, hchain⟩ := h t ht
      have hparsed := (Reading.parsed_of_parse ht).1
      exact Reading.suffices_interpret r files hparsed hpaste r.maxDepth _ b
        ⟨Nat.zero_le _, le_rfl⟩ (Reading.dangling_whole hparsed) hchain
  exact hshallow limit span path hdeep

/-- The limit bounds every rendering, and is not seen otherwise: the steps of a rendering end with
its result, and no more passes are open at any time than the limit, and one; what does not stop at
the limit is the same under every higher one; and blocks alone stop at the limit only if more of
them lie in each other than it allows. -/
theorem limit_bounds_page (r : Renderer) (files : Files) (p : Page) (b : Bindings) :
    ((∃ n, r.run files n (Renderer.start p b) = .ended (r.page files p b).result) ∧
      ∀ n, (r.run files n (Renderer.start p b)).passes ≤ r.maxDepth + 1) ∧
    (¬ (r.page files p b).TooDeep → ∀ limit, r.maxDepth ≤ limit →
      { r with maxDepth := limit }.page files p b = r.page files p b) ∧
    ((∀ t, Template.parse p.source = .ok t →
      (∀ u ∈ t.tags, u.kind ≠ .incl ∧ u.kind ≠ .includes) ∧
      ∀ chain, LinkedTag.Nests t.tags ⟨0, t.tags.length⟩ chain → chain.length ≤ r.maxDepth) →
        ¬ (r.page files p b).TooDeep) := by
  refine ⟨⟨r.reaches_page files p b, r.passes_run_le files p b⟩, fun h limit hlimit => ?_,
    r.not_tooDeep_page files p b⟩
  exact ((r.upTo_page files hlimit p b).resolve_left h).symm

/-- A file that includes itself in a loop, and a loop in a conditional block. -/
theorem limit_bounds_page_recursive :
    let r : Renderer := ⟨.ofString ".", 2⟩
    let a : Bytes := .ofString "<TMPL_LOOP name=\"l\"><TMPL_INCL name=\"a\">;</TMPL_LOOP>"
    let files : Files := fun path => if path = .ofString "./a" then .ok a else .error .notFound
    let nested : Bytes := .ofString
      "<TMPL_IF name=\"l\"><TMPL_LOOP name=\"l\">;</TMPL_LOOP></TMPL_IF>"
    let b : Bindings := ⟨[], [("l", [∅])]⟩
    (¬ (r.page files ⟨a, none⟩ b).TooDeep ∧ ∀ limit, 2 ≤ limit →
      { r with maxDepth := limit }.page files ⟨a, none⟩ b = r.page files ⟨a, none⟩ b) ∧
    ((∀ t, Template.parse nested = .ok t →
      (∀ u ∈ t.tags, u.kind ≠ .incl ∧ u.kind ≠ .includes) ∧
      ∀ chain, LinkedTag.Nests t.tags ⟨0, t.tags.length⟩ chain → chain.length ≤ 2) ∧
        ¬ (r.page files ⟨nested, none⟩ b).TooDeep) := by
  intro r a files nested b
  have hresult : (r.page files ⟨a, none⟩ b).result.map Chain.bytes = .ok [59] := by decide +kernel
  have hends : ¬ (r.page files ⟨a, none⟩ b).TooDeep := by
    rintro ⟨limit, span, path, h⟩
    rw [h] at hresult
    cases hresult
  have hparse : (Template.parse nested).map (fun t => (t.tags.length, t.tags.all fun u =>
      u.kind ≠ .incl ∧ u.kind ≠ .includes)) = .ok (4, true) := by decide +kernel
  have hnested : ∀ t, Template.parse nested = .ok t →
      (∀ u ∈ t.tags, u.kind ≠ .incl ∧ u.kind ≠ .includes) ∧
      ∀ chain, LinkedTag.Nests t.tags ⟨0, t.tags.length⟩ chain → chain.length ≤ 2 := by
    intro t ht
    rw [ht] at hparse
    obtain ⟨hlen, hpaste⟩ := Prod.mk.inj (Except.ok.inj hparse)
    refine ⟨fun u hu => of_decide_eq_true (List.all_eq_true.1 hpaste u hu), fun chain hchain => ?_⟩
    have hle := hchain.length_le
    simp only [hlen] at hle
    omega
  exact ⟨⟨hends, (limit_bounds_page r files ⟨a, none⟩ b).2.1 hends⟩, hnested,
    (limit_bounds_page r files ⟨nested, none⟩ b).2.2 hnested⟩

end Stencil
