import Stencil.Proofs.OneParse

/-!
# Values are data

What a rendering does is decided by the truth of the names that conditional blocks ask for and by
the number of children of the loops. Two scopes in which these agree, children included, give the
same fault or the same skeleton (`render_eq_of_similar`): a list of pieces, each of them text of a
template or a slot for the value of a variable, that is filled from the one scope or the other.
Values are not looked at again, whatever they spell.
-/

namespace Stencil

/-- The children of a loop, none where there is no such loop. -/
def Bindings.children (b : Bindings) (name : String) : List Bindings := (b.loop? name).getD []

/-- The scope that a way through loops leads to, each step to a child of a loop by its number. -/
def Bindings.follow : List (String × Nat) → Bindings → Option Bindings
  | [], b => some b
  | (name, i) :: way, b => (b.children name)[i]?.bind (follow way)

/-- Names that are asked for: in variable tags, in conditional blocks and in loops. -/
structure Asked where
  values : String → Prop
  truths : String → Prop
  loops : String → Prop

/-- The source is this one, or that of a file. -/
def Files.Known (files : Files) (source : Bytes) (s : Bytes) : Prop :=
  s = source ∨ ∃ path, files path = .ok s

/-- A tag of such a kind has the name, in the source or in a file. -/
def Files.Names (files : Files) (source : Bytes) (p : Kind → Bool) (name : String) : Prop :=
  ∃ s, files.Known source s ∧ ∃ t ∈ Tag.scan s ⟨0, s.length⟩, p t.kind ∧ t.name = some name

/-- The names that the tags of a source and of all files ask for. -/
def Asked.of (files : Files) (source : Bytes) : Asked where
  values := files.Names source (· == .var)
  truths := files.Names source Kind.takesElse
  loops := files.Names source (· == .loopBlock)

/-- Only truth and the children of loops are asked for. -/
def Asked.shape (n : Asked) : Asked := { n with values := fun _ => False }

/-- Two scopes agree on what is asked: on values, on truth and on the number of the children of
loops; and their children, one by one, agree so too. -/
inductive Similar (n : Asked) : Bindings → Bindings → Prop
  | intro {b c : Bindings} (values : ∀ x, n.values x → b.get? x = c.get? x)
    (truths : ∀ x, n.truths x → b.condition x = c.condition x)
    (counts : ∀ x, n.loops x → (b.children x).length = (c.children x).length)
    (children : ∀ x, n.loops x → ∀ (i : Nat) (b' c' : Bindings), (b.children x)[i]? = some b' →
      (c.children x)[i]? = some c' → Similar n b' c') : Similar n b c

/-- A piece of output: text, or the value of a variable in the scope that a way leads to. -/
inductive Piece where
  | text (value : Bytes)
  | slot (way : List (String × Nat)) (name : String)

namespace Piece

/-- What the piece is in a scope. Nothing stands for a variable that is not set. -/
def fill (b : Bindings) : Piece → Bytes
  | text value => value
  | slot way name => ((b.follow way).bind (·.get? name)).getD []

/-- The piece, seen from the scope that a child of a loop is in. -/
def under (name : String) (i : Nat) : Piece → Piece
  | text value => text value
  | slot way x => slot ((name, i) :: way) x

/-- The piece is taken from templates: text stands in one of the sources, and names are asked
for. -/
def From (n : Asked) (known : Bytes → Prop) : Piece → Prop
  | text value => ∃ s, known s ∧ value <:+: s
  | slot way name => n.values name ∧ ∀ step ∈ way, n.loops step.1

end Piece

/-- The chain that the pieces give in a scope, each piece a chunk. -/
def Chain.filled (b : Bindings) : List Piece → Chain
  | [] => ∅
  | p :: ps => .ofBytes (p.fill b) ++ filled b ps

namespace Chain

theorem filled_append (b : Bindings) : ∀ ps qs : List Piece,
    filled b (ps ++ qs) = filled b ps ++ filled b qs
  | [], qs => (empty_append (filled b qs)).symm
  | p :: ps, qs => by rw [List.cons_append, filled, filled_append b ps qs, filled, append_assoc]

theorem bytes_filled (b : Bindings) : ∀ ps : List Piece,
    (filled b ps).bytes = (ps.map (·.fill b)).flatten
  | [] => rfl
  | p :: ps => by
    rw [filled, bytes_append, bytes_ofBytes, bytes_filled b ps, List.map_cons, List.flatten_cons]

theorem filled_congr {b c : Bindings} {ps : List Piece} (h : ∀ p ∈ ps, p.fill b = p.fill c) :
    filled b ps = filled c ps := by
  induction ps with
  | nil => rfl
  | cons p ps ih =>
    obtain ⟨hp, hps⟩ := List.forall_mem_cons.1 h
    rw [filled, filled, hp, ih hps]

end Chain

variable {n : Asked} {known : Bytes → Prop} {b c b' c' : Bindings} {name : String} {i : Nat}

namespace Piece

theorem fill_under (h : (b.children name)[i]? = some b') (p : Piece) :
    (p.under name i).fill b = p.fill b' := by
  cases p with
  | text value => rfl
  | slot way x => simp only [under, fill, Bindings.follow, h, Option.bind_some]

theorem From.under {p : Piece} (h : p.From n known) (hn : n.loops name) :
    (p.under name i).From n known := by
  cases p with
  | text value => exact h
  | slot way x => exact ⟨h.1, List.forall_mem_cons.2 ⟨hn, h.2⟩⟩

end Piece

theorem Chain.filled_under (h : (b.children name)[i]? = some b') : ∀ ps : List Piece,
    filled b (ps.map (·.under name i)) = filled b' ps
  | [] => rfl
  | p :: ps => by rw [List.map_cons, filled, filled, filled_under h ps, Piece.fill_under h]

/-! ## Similar scopes -/

namespace Similar

theorem mono {n' : Asked} (h : Similar n b c) (hv : ∀ x, n'.values x → n.values x)
    (ht : ∀ x, n'.truths x → n.truths x) (hl : ∀ x, n'.loops x → n.loops x) : Similar n' b c := by
  induction h with
  | intro values truths counts children ih =>
    exact .intro (fun x hx => values x (hv x hx)) (fun x hx => truths x (ht x hx))
      (fun x hx => counts x (hl x hx)) fun x hx i b' c' hb hc => ih x (hl x hx) i b' c' hb hc

theorem shape (h : Similar n b c) : Similar n.shape b c :=
  h.mono (fun _ hx => hx.elim) (fun _ hx => hx) (fun _ hx => hx)

theorem truth_eq (h : Similar n b c) (hn : n.truths name) :
    b.condition name = c.condition name := by
  cases h with
  | intro _ truths => exact truths name hn

theorem length_eq (h : Similar n b c) (hn : n.loops name) :
    (b.children name).length = (c.children name).length := by
  cases h with
  | intro _ _ counts => exact counts name hn

theorem child (h : Similar n b c) (hn : n.loops name) (hb : (b.children name)[i]? = some b')
    (hc : (c.children name)[i]? = some c') : Similar n b' c' := by
  cases h with
  | intro _ _ _ children => exact children name hn i b' c' hb hc

/-- Where the values agree too, every slot has the same value. -/
theorem get?_follow (h : Similar n b c) (hn : n.values name) : ∀ way : List (String × Nat),
    (∀ step ∈ way, n.loops step.1) →
      (b.follow way).bind (·.get? name) = (c.follow way).bind (·.get? name) := by
  intro way hway
  induction way generalizing b c with
  | nil =>
    cases h with
    | intro values => exact values name hn
  | cons step way ih =>
    obtain ⟨x, i⟩ := step
    obtain ⟨hx, hway⟩ := List.forall_mem_cons.1 hway
    have hlen : (b.children x).length = (c.children x).length := h.length_eq hx
    simp only [Bindings.follow]
    rcases hb : (b.children x)[i]? with _ | b'
    · have hc : (c.children x)[i]? = none := by
        rw [List.getElem?_eq_none_iff] at hb ⊢
        omega
      rw [hc]
    · obtain ⟨c', hc⟩ : ∃ c', (c.children x)[i]? = some c' := by
        have hlt := (List.getElem?_eq_some_iff.1 hb).1
        exact ⟨_, List.getElem?_eq_getElem (hlen ▸ hlt)⟩
      rw [hc]
      exact ih (h.child hx hb hc) hway

theorem filled_eq (h : Similar n b c) {ps : List Piece} (hps : ∀ p ∈ ps, p.From n known) :
    Chain.filled b ps = Chain.filled c ps := by
  refine Chain.filled_congr fun p hp => ?_
  have hfrom := hps p hp
  cases p with
  | text value => rfl
  | slot way x => exact congrArg (·.getD []) (h.get?_follow hfrom.1 way hfrom.2)

end Similar

/-! ## Results with a common skeleton -/

/-- The two results are the same fault, or are given by the same pieces, the one filled from `b` and
the other from `c`. -/
def Shares (n : Asked) (known : Bytes → Prop) (b c : Bindings) (x y : Except RenderFault Chain) :
    Prop :=
  (∃ e, x = .error e ∧ y = .error e) ∨
    ∃ ps : List Piece, (∀ p ∈ ps, p.From n known) ∧ x = .ok (.filled b ps) ∧ y = .ok (.filled c ps)

namespace Shares

variable {x x' y y' : Except RenderFault Chain}

theorem error (e : RenderFault) : Shares n known b c (.error e) (.error e) := .inl ⟨e, rfl, rfl⟩

theorem empty : Shares n known b c (.ok ∅) (.ok ∅) :=
  .inr ⟨[], fun _ hp => absurd hp List.not_mem_nil, rfl, rfl⟩

theorem piece {p : Piece} (hp : p.From n known) :
    Shares n known b c (.ok (.ofBytes (p.fill b))) (.ok (.ofBytes (p.fill c))) := by
  refine .inr ⟨[p], fun q hq => List.mem_singleton.1 hq ▸ hp, ?_, ?_⟩ <;>
    rw [Chain.filled, Chain.filled, Chain.append_empty]

theorem append (h : Shares n known b c x y) (h' : Shares n known b c x' y') :
    Shares n known b c (do
      let out ← x
      let more ← x'
      return out ++ more) (do
      let out ← y
      let more ← y'
      return out ++ more) := by
  rcases h with ⟨e, rfl, rfl⟩ | ⟨ps, hps, rfl, rfl⟩
  · exact error e
  · rcases h' with ⟨e, rfl, rfl⟩ | ⟨qs, hqs, rfl, rfl⟩
    · exact error e
    · refine .inr ⟨ps ++ qs, fun p hp => ?_, ?_, ?_⟩
      · exact (List.mem_append.1 hp).elim (hps p) (hqs p)
      · exact congrArg Except.ok (Chain.filled_append b ps qs).symm
      · exact congrArg Except.ok (Chain.filled_append c ps qs).symm

/-- What children give is given by the pieces, seen from the scopes that they are children of. -/
theorem under (hn : n.loops name) (hb : (b.children name)[i]? = some b')
    (hc : (c.children name)[i]? = some c') (h : Shares n known b' c' x y) :
    Shares n known b c x y := by
  rcases h with h | ⟨ps, hps, rfl, rfl⟩
  · exact .inl h
  · refine .inr ⟨ps.map (·.under name i), fun p hp => ?_, ?_, ?_⟩
    · obtain ⟨q, hq, rfl⟩ := List.mem_map.1 hp
      exact (hps q hq).under hn
    · rw [Chain.filled_under hb]
    · rw [Chain.filled_under hc]

theorem rounds {f g : Bindings → Except RenderFault Chain} (hn : n.loops name)
    (hf : ∀ (i : Nat) (b' c' : Bindings), (b.children name)[i]? = some b' →
      (c.children name)[i]? = some c' → Shares n known b' c' (f b') (g c')) :
    ∀ (bs cs : List Bindings) (i : Nat),
      (b.children name).drop i = bs → (c.children name).drop i = cs → bs.length = cs.length →
        Shares n known b c (Reading.rounds f bs) (Reading.rounds g cs)
  | [], [], _, _, _, _ => empty
  | b' :: bs, c' :: cs, i, hbs, hcs, hlen => by
    obtain ⟨hb, hbs⟩ := of_drop_eq_cons hbs
    obtain ⟨hc, hcs⟩ := of_drop_eq_cons hcs
    exact append ((hf i b' c' hb hc).under hn hb hc)
      (rounds hn hf bs cs (i + 1) hbs hcs (Nat.succ.inj hlen))

theorem rounds_singleton {f : Bindings → Except RenderFault Chain}
    (h : Shares n known b c (f b) (f c)) :
    Shares n known b c (Reading.rounds f [b]) (Reading.rounds f [c]) := append h empty

end Shares

/-- What the two results share is taken from the source and from files. -/
abbrev Files.Shares (files : Files) (source : Bytes) (b c : Bindings) :
    (x y : Except RenderFault Chain) → Prop :=
  Stencil.Shares (Asked.of files source) (files.Known source) b c

/-! ## The names in a reading -/

theorem Tag.name_of_mem_scan {source : Bytes} {t : Tag}
    (ht : t ∈ Tag.scan source ⟨0, source.length⟩) (hc : t.closes = false)
    (hk : t.kind ≠ .elseMark) : t.name = some t.nameOrEmpty := by
  obtain ⟨-, x, -, he⟩ := Tag.mem_scan le_rfl (Nat.zero_le _) ht
  cases x with
  | divider tail =>
    rw [he] at hk
    exact absurd rfl hk
  | opening kind gap value tail =>
    rw [he]
    rfl
  | closing kind tail =>
    rw [he] at hc
    cases hc

namespace Reading

variable {r : Renderer} {files : Files} {source : Bytes} {inner : Option Inner} {R : Reading}
  {t : LinkedTag}

/-- The reading is that of the source or of a file. -/
structure Of (files : Files) (source : Bytes) (R : Reading) : Prop where
  parsed : R.Parsed
  known : files.Known source R.page.source

theorem Of.names (h : R.Of files source) (ht : t ∈ R.tags) (hc : t.closes = false)
    (hk : t.kind ≠ .elseMark) {p : Kind → Bool} (hp : p t.kind) :
    files.Names source p t.nameOrEmpty := by
  have hmem : t.toTag ∈ Tag.scan R.page.source ⟨0, R.page.source.length⟩ := by
    rw [← h.parsed.map_toTag]
    exact List.mem_map_of_mem ht
  exact ⟨_, h.known, _, hmem, hp, Tag.name_of_mem_scan hmem hc hk⟩

theorem slice_infix (bs : Bytes) (i j : Nat) : bs.slice i j <:+: bs :=
  (List.take_prefix _ _).isInfix.trans (List.drop_suffix _ _).isInfix

theorem Of.text (h : R.Of files source) (i : Nat) :
    (Piece.text (R.text i)).From n (files.Known source) :=
  ⟨_, h.known, slice_infix _ _ _⟩

/-- Regions of a reading, rendered in two similar scopes, give results that share their pieces. -/
def Alike (files : Files) (source : Bytes) (inner : Inner) : Prop :=
  ∀ R g b c, Reading.Of files source R → Similar (Asked.of files source).shape b c →
    files.Shares source b c (inner R g b) (inner R g c)

section

variable (hi : ∀ f ∈ inner, Alike files source f) (hR : R.Of files source)
  (h : Similar (Asked.of files source).shape b c)

include hi h

theorem shares_file :
    files.Shares source b c (file r files inner R t b) (file r files inner R t c) := by
  unfold file
  rcases inner with _ | inner
  · exact .error _
  · rcases hf : files (r.resolve t.nameOrEmpty) with why | s
    · exact .empty
    · simp only
      rcases hs : ofPage ⟨s, some (r.resolve t.nameOrEmpty)⟩ with e | R'
      · exact .error e
      · obtain ⟨hparsed, hpage⟩ := parsed_of_ofPage hs
        exact hi inner rfl R' R'.whole b c ⟨hparsed, .inr ⟨_, by rw [hpage]; exact hf⟩⟩ h

include hR

theorem shares_body_one (g : Region) :
    files.Shares source b c (R.body r inner t g [b]) (R.body r inner t g [c]) := by
  unfold body
  rcases inner with _ | inner
  · exact .error _
  · rcases R.enter g with e | -
    · exact .error e
    · exact .rounds_singleton (hi inner rfl R g b c hR h)

/-- A condition is asked for by a tag of the reading, so that both scopes show one branch. -/
theorem shares_conditional (ht : t ∈ R.tags) (hc : t.closes = false) (hk : t.kind.takesElse)
    (i : Nat) (link : Link) : files.Shares source b c (R.conditional r inner b i t link)
      (R.conditional r inner c i t link) := by
  have hn : (Asked.of files source).truths t.nameOrEmpty :=
    hR.names (p := Kind.takesElse) ht hc (by rintro he; rw [he] at hk; cases hk) hk
  have htruth : b.condition t.nameOrEmpty = c.condition t.nameOrEmpty := h.truth_eq hn
  unfold conditional
  rw [htruth]
  rcases branch i link _ with _ | g
  · exact .empty
  · exact shares_body_one hi hR h g

theorem shares_loop (ht : t ∈ R.tags) (hc : t.closes = false) (hk : t.kind = .loopBlock) (i : Nat)
    (link : Link) :
    files.Shares source b c (R.loop r inner b i t link) (R.loop r inner c i t link) := by
  have hn : (Asked.of files source).loops t.nameOrEmpty :=
    hR.names (p := (· == .loopBlock)) ht hc (by rw [hk]; exact nofun) (by rw [hk]; rfl)
  have hlen : (b.children t.nameOrEmpty).length = (c.children t.nameOrEmpty).length :=
    h.length_eq hn
  have hempty : (b.children t.nameOrEmpty).isEmpty = (c.children t.nameOrEmpty).isEmpty := by
    rw [Bool.eq_iff_iff, List.isEmpty_iff_length_eq_zero, List.isEmpty_iff_length_eq_zero, hlen]
  show Shares _ _ b c (if (b.children t.nameOrEmpty).isEmpty then _ else _)
    (if (c.children t.nameOrEmpty).isEmpty then _ else _)
  rw [hempty]
  split_ifs
  · exact .empty
  · unfold body
    rcases inner with _ | inner
    · exact .error _
    · rcases R.enter _ with e | -
      · exact .error e
      · exact Shares.rounds hn
          (fun i b' c' hb hc => hi inner rfl R _ b' c' hR (h.child hn hb hc)) _ _ 0 rfl rfl hlen

/-- The walk goes on behind the same tag in both scopes. -/
theorem shares_tag (ht : t ∈ R.tags) (i : Nat) :
    ∃ (last : Nat) (x y : Except RenderFault Chain), files.Shares source b c x y ∧
      R.tag r files inner b i t = (do let out ← x; return (out, last)) ∧
      R.tag r files inner c i t = (do let out ← y; return (out, last)) := by
  have hblock : ∀ shown shown' : Link → Except RenderFault Chain,
      (∀ link, files.Shares source b c (shown link) (shown' link)) →
      ∃ (last : Nat) (x y : Except RenderFault Chain), files.Shares source b c x y ∧
        R.block t shown = (do let out ← x; return (out, last)) ∧
        R.block t shown' = (do let out ← y; return (out, last)) := by
    intro shown shown' hshown
    unfold block
    rcases t.link with _ | link
    · exact ⟨0, _, _, .error _, rfl, rfl⟩
    · exact ⟨link.closing, _, _, hshown link, rfl, rfl⟩
  unfold tag
  rcases hc : t.closes with _ | _
  · rw [if_neg Bool.false_ne_true, if_neg Bool.false_ne_true]
    have hconditional := shares_conditional (r := r) hi hR h ht hc
    cases hk : t.kind <;> rw [hk] at hconditional
    case elseMark => exact ⟨0, _, _, .error _, rfl, rfl⟩
    case var =>
      have hslot : (Piece.slot [] t.nameOrEmpty).From (Asked.of files source)
          (files.Known source) :=
        ⟨hR.names (p := (· == .var)) ht hc (by rw [hk]; exact nofun) (by rw [hk]; rfl), nofun⟩
      exact ⟨i, _, _, .piece hslot, rfl, rfl⟩
    case incl | includes => exact ⟨i, _, _, shares_file hi h, rfl, rfl⟩
    case ifBlock | unlessBlock => exact hblock _ _ (hconditional rfl i)
    case loopBlock => exact hblock _ _ (shares_loop hi hR h ht hc hk i)
  · exact ⟨0, _, _, .error _, rfl, rfl⟩

theorem shares_walk : ∀ (rest : List LinkedTag) (i taken : Nat), rest ⊆ R.tags →
    files.Shares source b c (R.walk r files inner b i taken rest)
      (R.walk r files inner c i taken rest)
  | [], i, taken, _ => by
    have htext : (Piece.text (R.text i)).From (Asked.of files source) (files.Known source) :=
      hR.text i
    rw [walk, walk]
    exact .piece htext
  | t :: rest, i, taken + 1, hrest => by
    rw [walk, walk]
    exact shares_walk rest (i + 1) taken (List.cons_subset.1 hrest).2
  | t :: rest, i, 0, hrest => by
    obtain ⟨ht, hrest⟩ := List.cons_subset.1 hrest
    obtain ⟨last, x, y, hxy, hb, hc⟩ := shares_tag (r := r) hi hR h ht i
    have htext : (Piece.text (R.text i)).From (Asked.of files source) (files.Known source) :=
      hR.text i
    have hall := ((Shares.piece htext).append hxy).append
      (shares_walk rest (i + 1) (last - i) hrest)
    rw [walk, walk, hb, hc]
    simpa only [Piece.fill, bind_assoc, pure_bind, Rendering.ok_bind] using hall

end

/-- So many levels down, regions that are rendered in similar scopes share their pieces. -/
theorem alike_interpret (r : Renderer) (files : Files) (source : Bytes) : ∀ levels : Nat,
    Alike files source (interpret r files levels)
  | 0, R, g, _, _, hR, h =>
    shares_walk (fun _ hf => by cases hf) hR h _ g.first 0 (g.of_subset R.tags)
  | levels + 1, R, g, _, _, hR, h =>
    shares_walk (fun _ hf => by cases hf; exact alike_interpret r files source levels) hR h _
      g.first 0 (g.of_subset R.tags)

theorem shares_page (r : Renderer) (files : Files) (p : Page)
    (h : Similar (Asked.of files p.source).shape b c) :
    files.Shares p.source b c (r.page files p b).result (r.page files p c).result := by
  rw [result_page, result_page]
  rcases hR : ofPage p with e | R
  · exact .error e
  · obtain ⟨hparsed, hpage⟩ := parsed_of_ofPage hR
    exact alike_interpret r files p.source r.maxDepth R R.whole b c
      ⟨hparsed, .inl (congrArg Page.source hpage)⟩ h

theorem shares_render (r : Renderer) (files : Files) (source : Bytes)
    (h : Similar (Asked.of files source).shape b c) :
    files.Shares source b c (r.render files source b).result (r.render files source c).result :=
  shares_page r files ⟨source, none⟩ h

end Reading

/-- Two scopes that agree on what conditional blocks and loops ask for fail alike, or give outputs
of one skeleton, each output with its own values in the slots. Where the scopes agree on the values
of the variables too, nothing tells the results apart; so names that no tag has do not matter. -/
theorem render_eq_of_similar (r : Renderer) (files : Files) (source : Bytes) :
    (∀ b c, Similar (Asked.of files source).shape b c →
      (∃ e, (r.render files source b).result = .error e ∧
        (r.render files source c).result = .error e) ∨
      ∃ (ps : List Piece) (out out' : Chain),
        (∀ p ∈ ps, p.From (Asked.of files source) (files.Known source)) ∧
        (r.render files source b).result = .ok out ∧ (r.render files source c).result = .ok out' ∧
        out.bytes = (ps.map (·.fill b)).flatten ∧ out'.bytes = (ps.map (·.fill c)).flatten) ∧
    ∀ b c, Similar (Asked.of files source) b c →
      (r.render files source b).result = (r.render files source c).result := by
  constructor
  · intro b c h
    rcases Reading.shares_render r files source h with hfault | ⟨ps, hps, hb, hc⟩
    · exact .inl hfault
    · exact .inr ⟨ps, _, _, hps, hb, hc, Chain.bytes_filled b ps, Chain.bytes_filled c ps⟩
  · intro b c h
    rcases Reading.shares_render r files source h.shape with ⟨e, hb, hc⟩ | ⟨ps, hps, hb, hc⟩
    · rw [hb, hc]
    · rw [hb, hc, h.filled_eq hps]

/-- Values that spell tags, in a file that a conditional block includes, and a name of no tag. -/
theorem render_eq_of_similar_marks :
    let source : Bytes := .ofString "<TMPL_IF name=\"x\"><TMPL_INCL name=\"a\"></TMPL_IF>"
    let a : Bytes := .ofString "<TMPL_LOOP name=\"l\">[<TMPL_VAR name=\"v\">]</TMPL_LOOP>"
    let files : Files := fun path => if path = .ofString "./a" then .ok a else .error .notFound
    let mark : Bytes := .ofString "<TMPL_VAR name=\"v\">"
    let b : Bindings := ⟨[("x", .ofString "<TMPL_ELSE>")], [("l", [⟨[("v", mark)], []⟩])]⟩
    let c : Bindings := ⟨[("x", [49]), ("v", mark)], [("l", [⟨[], []⟩])]⟩
    let d : Bindings := ⟨[("x", .ofString "<TMPL_ELSE>"), ("y", mark)], b.loops⟩
    Similar (Asked.of files source).shape b c ∧ Similar (Asked.of files source) b d ∧
      (∃ (ps : List Piece) (out out' : Chain),
        (∀ p ∈ ps, p.From (Asked.of files source) (files.Known source)) ∧
        (Renderer.standard.render files source b).result = .ok out ∧
        (Renderer.standard.render files source c).result = .ok out' ∧
        out.bytes = (ps.map (·.fill b)).flatten ∧ out'.bytes = (ps.map (·.fill c)).flatten ∧
        out.bytes = [91] ++ mark ++ [93] ∧ out'.bytes = [91, 93]) ∧
      (Renderer.standard.render files source b).result =
        (Renderer.standard.render files source d).result := by
  intro source a files mark b c d
  have hknown : ∀ s, files.Known source s → s = source ∨ s = a := by
    rintro s (rfl | ⟨path, hpath⟩)
    · exact .inl rfl
    · by_cases hp : path = .ofString "./a"
      · exact .inr (Except.ok.inj ((if_pos hp).symm.trans hpath)).symm
      · cases (if_neg hp).symm.trans hpath
  -- what the tags of both sources ask for
  have hmarks : ∀ s, s = source ∨ s = a → ∀ t ∈ Tag.scan s ⟨0, s.length⟩, t.name = none ∨
      (t.kind = .var → t.name = some "v") ∧ (t.kind.takesElse → t.name = some "x") ∧
        (t.kind = .loopBlock → t.name = some "l") := by
    rintro s (rfl | rfl) <;> decide +kernel
  have hvalues : ∀ x, (Asked.of files source).values x → x = "v" := by
    rintro x ⟨s, hs, t, ht, hk, hname⟩
    have hmark := (hmarks s (hknown s hs) t ht).resolve_left (by simp [hname])
    exact Option.some.inj (hname.symm.trans (hmark.1 (eq_of_beq hk)))
  have htruths : ∀ x, (Asked.of files source).truths x → x = "x" := by
    rintro x ⟨s, hs, t, ht, hk, hname⟩
    have hmark := (hmarks s (hknown s hs) t ht).resolve_left (by simp [hname])
    exact Option.some.inj (hname.symm.trans (hmark.2.1 hk))
  have hloops : ∀ x, (Asked.of files source).loops x → x = "l" := by
    rintro x ⟨s, hs, t, ht, hk, hname⟩
    have hmark := (hmarks s (hknown s hs) t ht).resolve_left (by simp [hname])
    exact Option.some.inj (hname.symm.trans (hmark.2.2 (eq_of_beq hk)))
  have hleaf : ∀ vs ws, (∀ x, (Asked.of files source).truths x →
      Bindings.condition ⟨vs, []⟩ x = Bindings.condition ⟨ws, []⟩ x) →
      Similar (Asked.of files source).shape ⟨vs, []⟩ ⟨ws, []⟩ := by
    intro vs ws h
    exact .intro nofun h (fun _ _ => rfl) fun _ _ _ _ _ hb => by cases hb
  have hchildren : ∀ {child child' b' c' : Bindings} {i : Nat}, [child][i]? = some b' →
      [child'][i]? = some c' → b' = child ∧ c' = child' := by
    rintro child child' b' c' (_ | i) hb hc
    · exact ⟨(Option.some.inj hb).symm, (Option.some.inj hc).symm⟩
    · cases hb
  have hbc : Similar (Asked.of files source).shape b c := by
    refine .intro nofun (fun x hx => ?_) (fun x hx => ?_) fun x hx i b' c' hb hc => ?_
    · rw [htruths x hx]
      decide +kernel
    · rw [hloops x hx]
      decide +kernel
    · rw [hloops x hx] at hb hc
      obtain ⟨rfl, rfl⟩ := hchildren hb hc
      refine hleaf _ _ fun y hy => ?_
      rw [htruths y hy]
      decide +kernel
  have hbd : Similar (Asked.of files source) b d := by
    refine .intro (fun x hx => ?_) (fun x hx => ?_) (fun x hx => ?_) fun x hx i b' c' hb hc => ?_
    · rw [hvalues x hx]
      decide +kernel
    · rw [htruths x hx]
      decide +kernel
    · rw [hloops x hx]
      decide +kernel
    · rw [hloops x hx] at hb hc
      obtain ⟨rfl, rfl⟩ := hchildren hb hc
      exact .intro (fun _ _ => rfl) (fun _ _ => rfl) (fun _ _ => rfl)
        fun _ _ _ _ _ hb => by cases hb
  have hb : (Renderer.standard.render files source b).result.map Chain.bytes =
      .ok ([91] ++ mark ++ [93]) := by decide +kernel
  have hc : (Renderer.standard.render files source c).result.map Chain.bytes = .ok [91, 93] := by
    decide +kernel
  obtain ⟨hskeleton, hequal⟩ := render_eq_of_similar Renderer.standard files source
  refine ⟨hbc, hbd, ?_, hequal b d hbd⟩
  rcases hskeleton b c hbc with ⟨e, he, -⟩ | ⟨ps, out, out', hps, hout, hout', hfill, hfill'⟩
  · rw [he] at hb
    cases hb
  · rw [hout] at hb
    rw [hout'] at hc
    exact ⟨ps, out, out', hps, hout, hout', hfill, hfill', Except.ok.inj hb, Except.ok.inj hc⟩

end Stencil
