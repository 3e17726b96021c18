import Stencil.Proofs.MarkupLinks
import Stencil.Proofs.OneParse

/-!
# A source gives what its tree means

The walk over the tags of a reading goes along the tree that the source spells: a text of the tree
is a part of the text in front of a tag, and a block takes up its tags as one part
(`Markup.Linked.means`).
-/

namespace Stencil

namespace Reading

variable {r : Renderer} {files : Files} {inner : Option Inner} {R : Reading} {b : Bindings}
  {i : Nat} {t : LinkedTag} {us vs : List LinkedTag} {ss ss' : List Bytes}

/-! ## Parts of a reading -/

/-- The tags stand in the reading from the index `i` on. -/
def Has (R : Reading) (i : Nat) (us : List LinkedTag) : Prop := us <+: R.tags.drop i

namespace Has

theorem left (h : R.Has i (us ++ vs)) : R.Has i us := (List.prefix_append us vs).trans h

theorem right (h : R.Has i (us ++ vs)) : R.Has (i + us.length) vs := by
  obtain ⟨ws, hws⟩ := h
  refine ⟨ws, ?_⟩
  rw [← List.drop_drop, ← hws, List.append_assoc, List.drop_left]

theorem head (h : R.Has i (t :: us)) : R.tags[i]? = some t := by
  obtain ⟨ws, hws⟩ := h
  rw [← Nat.add_zero i, ← List.getElem?_drop, ← hws]
  rfl

theorem tail (h : R.Has i (t :: us)) : R.Has (i + 1) us := by
  rw [← List.singleton_append] at h
  exact h.right

theorem block {c : LinkedTag} (h : R.Has i (t :: (us ++ c :: vs))) :
    R.Has (i + 1) us ∧ R.Has (i + us.length + 2) vs := by
  have hvs := h.tail.right.tail
  rw [show i + 1 + us.length + 1 = i + us.length + 2 by omega] at hvs
  exact ⟨h.tail.left, hvs⟩

theorem of_eq (h : R.Has i us) : (⟨i, i + us.length⟩ : Region).of R.tags = us := by
  obtain ⟨ws, hws⟩ := h
  rw [Region.of, List.drop_take, ← hws, Nat.add_sub_cancel_left, List.take_left]

end Has

/-- The texts in front of the tags from the index `i` on are these. -/
def Shows (R : Reading) : (i : Nat) → List Bytes → Prop
  | _, [] => True
  | i, s :: ss => R.text i = s ∧ Shows R (i + 1) ss

theorem shows_append : ∀ {ss : List Bytes} {i : Nat},
    R.Shows i (ss ++ ss') ↔ R.Shows i ss ∧ R.Shows (i + ss.length) ss'
  | [], i => by simp [Shows]
  | s :: ss, i => by
    rw [List.cons_append, Shows, Shows, shows_append, List.length_cons, and_assoc,
      show i + 1 + ss.length = i + (ss.length + 1) by omega]

theorem shows_texts : ∀ {us : List LinkedTag} {i : Nat}, R.tags.drop i = us →
    R.Shows i (Tag.texts R.page.source (R.behind i) (us.map (·.toTag)))
  | [], i, h => by
    refine ⟨?_, trivial⟩
    rw [text, before, h]
    rfl
  | t :: us, i, h => by
    have ht : R.tags[i]? = some t := by
      rw [← Nat.add_zero i, ← List.getElem?_drop, h]
      rfl
    have htail : R.tags.drop (i + 1) = us := by
      rw [← List.drop_drop, h]
      rfl
    refine ⟨?_, ?_⟩
    · rw [text, before_eq ht]
    · have ih := shows_texts htail
      rwa [behind_succ ht] at ih

/-! ## Steps of the walk -/

theorem map_append (x y : Except RenderFault Chain) :
    (do let c ← x
        let d ← y
        return c ++ d).map Chain.bytes =
      (do let bs ← x.map Chain.bytes
          let cs ← y.map Chain.bytes
          return bs ++ cs) := by
  rcases x with e | c
  · rfl
  · rcases y with e | d
    · rfl
    · exact congrArg Except.ok (Chain.bytes_append c d)

/-- The output of a tag that takes up the tags `us`, and of those behind them. -/
theorem map_walk_cons (us : List LinkedTag) {x : Except RenderFault Chain}
    {out more : Except RenderFault Bytes}
    (ht : R.tag r files inner b i t = x.map fun c => (c, i + us.length))
    (hx : x.map Chain.bytes = out)
    (hv : (R.walk r files inner b (i + us.length + 1) 0 vs).map Chain.bytes = more) :
    (R.walk r files inner b i 0 (t :: (us ++ vs))).map Chain.bytes =
      (do let out ← out
          let more ← more
          return out ++ more).map (R.text i ++ ·) := by
  subst hx hv
  rw [walk, ht]
  rcases x with e | c
  · rfl
  · simp only [Rendering.map_ok, Rendering.ok_bind, Nat.add_sub_cancel_left]
    rw [walk_drop _ _ _ (by simp), List.drop_left, Nat.add_right_comm]
    rcases R.walk r files inner b (i + us.length + 1) 0 vs with e | d
    · rfl
    · exact congrArg Except.ok (by simp)

/-- The output of a block with its body and its closing tag, and of the tags behind it. -/
theorem map_walk_block (us : List LinkedTag) {c : LinkedTag} {x : Except RenderFault Chain}
    {out more : Except RenderFault Bytes}
    (ht : R.tag r files inner b i t = x.map fun d => (d, i + us.length + 1))
    (hx : x.map Chain.bytes = out)
    (hv : (R.walk r files inner b (i + us.length + 2) 0 vs).map Chain.bytes = more) :
    (R.walk r files inner b i 0 (t :: (us ++ c :: vs))).map Chain.bytes =
      (do let out ← out
          let more ← more
          return out ++ more).map (R.text i ++ ·) := by
  have hlen : i + (us ++ [c]).length = i + us.length + 1 := by
    rw [List.length_append, List.length_singleton, Nat.add_assoc]
  rw [List.append_cons]
  exact map_walk_cons (us ++ [c]) (by rw [ht, hlen]) hx (by rw [hlen, ← hv])

theorem map_rounds {f : Bindings → Except RenderFault Chain}
    {m : Bindings → Except RenderFault Bytes} (h : ∀ b, (f b).map Chain.bytes = m b) :
    ∀ scopes : List Bindings, (rounds f scopes).map Chain.bytes =
      (do let outs ← scopes.mapM m
          return outs.flatten)
  | [] => rfl
  | b :: rest => by
    rw [rounds, map_append, h, map_rounds h rest, List.mapM_cons]
    simp only [bind_assoc, pure_bind, List.flatten_cons]

/-! ## What a tag gives -/

variable {name : String}

theorem nameOrEmpty_of_mark {m : Mark} (ht : t.mark = m) : t.nameOrEmpty = m.name.getD "" := by
  subst ht
  rfl

theorem tag_var (ht : t.mark = ⟨.var, some name, false⟩) :
    R.tag r files inner b i t = .ok (.ofBytes ((b.get? name).getD []), i) := by
  have hk : t.kind = .var := congrArg Mark.kind ht
  have hc : t.closes = false := congrArg Mark.closes ht
  simp [tag, hk, hc, nameOrEmpty_of_mark ht]

theorem tag_paste {short : Bool}
    (ht : t.mark = ⟨if short then .incl else .includes, some name, false⟩) :
    R.tag r files inner b i t = (R.file r files inner t b).map fun c => (c, i) := by
  have hk : t.kind = if short then .incl else .includes := congrArg Mark.kind ht
  have hc : t.closes = false := congrArg Mark.closes ht
  rw [tag, hc, hk]
  cases short <;> rcases R.file r files inner t b with e | c <;> rfl

theorem tag_conditional {negated : Bool} {link : Link}
    (ht : t.mark = ⟨.conditional negated, some name, false⟩) (hl : t.link = some link) :
    R.tag r files inner b i t =
      (R.conditional r inner b i t link).map fun c => (c, link.closing) := by
  have hk : t.kind = .conditional negated := congrArg Mark.kind ht
  have hc : t.closes = false := congrArg Mark.closes ht
  have hblock : R.tag r files inner b i t = R.block t (R.conditional r inner b i t) := by
    rw [tag, hc, hk]
    cases negated <;> rfl
  rw [hblock, block, hl]
  simp only
  rcases R.conditional r inner b i t link with e | c <;> rfl

theorem conditional_of_mark {negated : Bool}
    (ht : t.mark = ⟨.conditional negated, some name, false⟩) (link : Link) :
    R.conditional r inner b i t link =
      (branch i link (b.condition name != negated)).elim (.ok ∅) fun g =>
        R.body r inner t g [b] := by
  have hk : t.kind = .conditional negated := congrArg Mark.kind ht
  have hn : (Kind.conditional negated == .unlessBlock) = negated := by cases negated <;> rfl
  rw [conditional, nameOrEmpty_of_mark ht, hk, hn]
  rfl

theorem tag_loop {link : Link} (ht : t.mark = ⟨.loopBlock, some name, false⟩)
    (hl : t.link = some link) :
    R.tag r files inner b i t = (R.loop r inner b i t link).map fun c => (c, link.closing) := by
  have hk : t.kind = .loopBlock := congrArg Mark.kind ht
  have hc : t.closes = false := congrArg Mark.closes ht
  have hblock : R.tag r files inner b i t = R.block t (R.loop r inner b i t) := by
    rw [tag, hc, hk]
    rfl
  rw [hblock, block, hl]
  simp only
  rcases R.loop r inner b i t link with e | c <;> rfl

end Reading

namespace Markup

open Reading

variable {r : Renderer} {files : Files} {R : Reading} {place : Nat → Span} {b : Bindings}
  {levels i j : Nat} {t : LinkedTag} {us : List LinkedTag} {tree : Markup}

/-- The truth of a name, told from what the name is bound to. -/
theorem condition_eq_truth (b : Bindings) (name : String) : b.condition name = truth b name := by
  unfold Bindings.condition truth
  rcases b.get? name with _ | value
  · rcases b.loop? name with _ | _ | ⟨child, children⟩ <;> rfl
  · exact (Bool.decide_and _ _).symm

theorem dangling_of_linksInto {g : Region} (h : LinksInto g (g.of R.tags)) :
    g.dangling R.tags = [] := by
  refine List.filterMap_eq_nil_iff.2 fun u hu => ?_
  rcases hl : u.link with _ | link
  · rfl
  · exact if_pos (h u hu link hl)

theorem map_file (r : Renderer) (files : Files) (levels : Nat) (b : Bindings) {name : String}
    (ht : t.span = place i) (hn : t.nameOrEmpty = name) :
    (R.file r files (innerAt r files levels) t b).map Chain.bytes =
      descend r R.page.path place levels i fun levels => pasted r files levels name b := by
  subst hn
  rcases levels with _ | levels
  · rw [descend, ← ht]
    rfl
  · simp only [file, innerAt, descend, pasted]
    rcases files (r.resolve t.nameOrEmpty) with why | source
    · rfl
    · simp only [result_pageAt]

theorem flatten_mapM_singleton (m : Bindings → Except RenderFault Bytes) (b : Bindings) :
    (do let outs ← [b].mapM m
        return outs.flatten) = m b := by
  simp only [List.mapM_cons, List.mapM_nil, bind_assoc, pure_bind, List.flatten_cons,
    List.flatten_nil, List.append_nil, bind_pure]

/-! ## What the walk over the tags of a tree gives -/

section Means

variable (r files R place)

/-- The walk over the tags gives what the tree means, behind the text `p` that is left from in front
of it. -/
def Means (tree : Markup) (i : Nat) (us : List LinkedTag) (p : Bytes) : Prop :=
  ∀ (levels : Nat) (b : Bindings),
    (R.walk r files (innerAt r files levels) b i 0 us).map Chain.bytes =
      (tree.eval r files R.page.path place levels i b).map (p ++ ·)

end Means

variable {name : String} {body other next : Markup} {bs os ts : List LinkedTag} {c e : LinkedTag}
  {p : Bytes}

theorem Means.walk_eq (h : Means r files R place tree i us []) (levels : Nat) (b : Bindings) :
    (R.walk r files (innerAt r files levels) b i 0 us).map Chain.bytes =
      tree.eval r files R.page.path place levels i b := by
  rw [h levels b]
  rcases tree.eval r files R.page.path place levels i b with e | out <;> rfl

/-- A body gives its meaning for each scope, one level deeper. -/
theorem Means.body_eq (h : Means r files R place tree j us []) (hlinked : tree.Linked j us)
    (hhas : R.Has j us) (ht : t.span = place i) (levels : Nat) (scopes : List Bindings) :
    (R.body r (innerAt r files levels) t ⟨j, j + us.length⟩ scopes).map Chain.bytes =
      descend r R.page.path place levels i fun levels => do
        let outs ← scopes.mapM fun b => tree.eval r files R.page.path place levels j b
        return outs.flatten := by
  rcases levels with _ | levels
  · rw [descend, ← ht]
    rfl
  · have hof := hhas.of_eq
    have hd : (⟨j, j + us.length⟩ : Region).dangling R.tags = [] :=
      dangling_of_linksInto (by rw [hof]; exact hlinked.linksInto)
    simp only [Reading.body, innerAt, enter, hd, descend, Rendering.ok_bind]
    refine map_rounds (fun b => ?_) scopes
    rw [interpret_eq_walk, hof, h.walk_eq]

theorem means_nil : Means r files R place .nil i [] (R.text i) := by
  intro levels b
  rw [walk, eval]
  simp

theorem means_text {value : Bytes} (h : Means r files R place next i us (p ++ value)) :
    Means r files R place (.text value next) i us p := by
  intro levels b
  rw [h levels b, eval]
  rcases next.eval r files R.page.path place levels i b with e | more
  · rfl
  · simp

theorem means_var (ht : t.mark = ⟨.var, some name, false⟩)
    (hn : Means r files R place next (i + 1) ts []) :
    Means r files R place (.var name next) i (t :: ts) (R.text i) := by
  intro levels b
  have hvalue : (Except.ok (Chain.ofBytes ((b.get? name).getD []))).map Chain.bytes =
      (.ok ((b.get? name).getD []) : Except RenderFault Bytes) :=
    congrArg Except.ok (Chain.bytes_ofBytes _)
  exact map_walk_cons [] (tag_var ht) hvalue (hn.walk_eq levels b)

theorem means_paste {short : Bool}
    (ht : t.mark = ⟨if short then .incl else .includes, some name, false⟩)
    (hspan : t.span = place i) (hn : Means r files R place next (i + 1) ts []) :
    Means r files R place (.paste short name next) i (t :: ts) (R.text i) := by
  intro levels b
  have hfile : (R.file r files (innerAt r files levels) t b).map Chain.bytes = _ :=
    map_file r files levels b hspan (nameOrEmpty_of_mark ht)
  exact map_walk_cons [] (tag_paste ht) hfile (hn.walk_eq levels b)

theorem means_branch {negated : Bool} (ht : t.mark = ⟨.conditional negated, some name, false⟩)
    (hl : t.link = some ⟨i + bs.length + 1, none⟩) (hspan : t.span = place i)
    (hhas : R.Has (i + 1) bs) (hlinked : body.Linked (i + 1) bs)
    (hb : Means r files R place body (i + 1) bs [])
    (hn : Means r files R place next (i + bs.length + 2) ts []) :
    Means r files R place (.branch negated name body next) i (t :: (bs ++ c :: ts)) (R.text i) := by
  intro levels b
  have hbody := hb.body_eq hlinked hhas hspan levels [b]
  simp only [flatten_mapM_singleton, Nat.add_right_comm i 1] at hbody
  have hout : (R.conditional r (innerAt r files levels) b i t ⟨i + bs.length + 1, none⟩).map
      Chain.bytes = if truth b name != negated then
        descend r R.page.path place levels i fun levels =>
          body.eval r files R.page.path place levels (i + 1) b
      else .ok [] := by
    rw [conditional_of_mark ht, condition_eq_truth]
    rcases truth b name != negated with _ | _
    · rfl
    · exact hbody
  rw [eval, ← hlinked.length_eq]
  exact map_walk_block bs (tag_conditional ht hl) hout (hn.walk_eq levels b)

theorem means_either {negated : Bool} (ht : t.mark = ⟨.conditional negated, some name, false⟩)
    (hl : t.link = some ⟨i + bs.length + os.length + 2, some (i + bs.length + 1)⟩)
    (hspan : t.span = place i) (hhas : R.Has (i + 1) bs) (hhas' : R.Has (i + bs.length + 2) os)
    (hlinked : body.Linked (i + 1) bs) (hlinked' : other.Linked (i + bs.length + 2) os)
    (hb : Means r files R place body (i + 1) bs [])
    (ho : Means r files R place other (i + bs.length + 2) os [])
    (hn : Means r files R place next (i + bs.length + os.length + 3) ts []) :
    Means r files R place (.either negated name body other next) i
      (t :: (bs ++ e :: (os ++ c :: ts))) (R.text i) := by
  intro levels b
  have hlen : i + (bs ++ e :: os).length = i + bs.length + os.length + 1 := by
    simp only [List.length_append, List.length_cons]
    omega
  have hbody := hb.body_eq hlinked hhas hspan levels [b]
  have hother := ho.body_eq hlinked' hhas' hspan levels [b]
  simp only [flatten_mapM_singleton, Nat.add_right_comm i 1] at hbody
  simp only [flatten_mapM_singleton, Nat.add_right_comm _ 2] at hother
  have hout : (R.conditional r (innerAt r files levels) b i t
      ⟨i + bs.length + os.length + 2, some (i + bs.length + 1)⟩).map Chain.bytes =
        descend r R.page.path place levels i fun levels =>
          if truth b name != negated then body.eval r files R.page.path place levels (i + 1) b
          else other.eval r files R.page.path place levels (i + bs.length + 2) b := by
    rw [conditional_of_mark ht, condition_eq_truth]
    rcases truth b name != negated with _ | _
    · exact hother
    · exact hbody
  rw [eval, ← hlinked.length_eq, ← hlinked'.length_eq,
    show bs ++ e :: (os ++ c :: ts) = (bs ++ e :: os) ++ c :: ts by simp]
  refine map_walk_block (bs ++ e :: os) ?_ hout ?_
  · rw [hlen]
    exact tag_conditional ht hl
  · rw [hlen]
    exact hn.walk_eq levels b

theorem means_loop (ht : t.mark = ⟨.loopBlock, some name, false⟩)
    (hl : t.link = some ⟨i + bs.length + 1, none⟩) (hspan : t.span = place i)
    (hhas : R.Has (i + 1) bs) (hlinked : body.Linked (i + 1) bs)
    (hb : Means r files R place body (i + 1) bs [])
    (hn : Means r files R place next (i + bs.length + 2) ts []) :
    Means r files R place (.loop name body next) i (t :: (bs ++ c :: ts)) (R.text i) := by
  intro levels b
  have hbody := hb.body_eq hlinked hhas hspan levels
  simp only [Nat.add_right_comm i 1] at hbody
  have hout : (R.loop r (innerAt r files levels) b i t ⟨i + bs.length + 1, none⟩).map
      Chain.bytes = if ((b.loop? name).getD []).isEmpty then .ok []
      else descend r R.page.path place levels i fun levels => do
        let outs ← ((b.loop? name).getD []).mapM fun child =>
          body.eval r files R.page.path place levels (i + 1) child
        return outs.flatten := by
    simp only [Reading.loop, nameOrEmpty_of_mark ht, Option.getD_some]
    split
    · rfl
    · exact hbody _
  rw [eval, ← hlinked.length_eq]
  exact map_walk_block bs (tag_loop ht hl) hout (hn.walk_eq levels b)

theorem length_texts : ∀ tree : Markup, tree.texts.length = tree.marks.length + 1
  | nil => rfl
  | text value next => by
    have ih := length_texts next
    rcases hn : next.texts with _ | ⟨s, ss⟩
    · rw [hn] at ih
      cases ih
    · rw [hn] at ih
      rw [texts, hn]
      exact ih
  | var _ next | paste _ _ next => by simp [texts, marks, length_texts next]
  | branch _ _ body next | loop _ body next => by
    simp only [texts, marks, List.length_cons, List.length_append, length_texts body,
      length_texts next]
    omega
  | either _ _ body other next => by
    simp only [texts, marks, List.length_cons, List.length_append, length_texts body,
      length_texts other, length_texts next]
    omega

theorem inFront_nil_texts (tree : Markup) : inFront [] tree.texts = tree.texts := by
  rcases h : tree.texts with _ | ⟨s, ss⟩
  · have hlen := length_texts tree
    rw [h] at hlen
    cases hlen
  · rfl

theorem inFront_inFront (p value : Bytes) (ss : List Bytes) :
    inFront p (inFront value ss) = inFront (p ++ value) ss := by
  rcases ss with _ | ⟨s, ss⟩
  · rfl
  · simp [inFront]

/-- Before a tag that stands at the front of a tree no text of the tree is left. -/
theorem shows_inFront {ss : List Bytes} (h : R.Shows i (inFront p ([] :: ss))) :
    R.text i = p ∧ R.Shows (i + 1) ss := by
  obtain ⟨htext, hss⟩ := h
  exact ⟨htext.trans (List.append_nil p), hss⟩

/-- Behind the texts of a tree come those of the part behind its closing tag. -/
theorem shows_texts_append {ss : List Bytes} (h : R.Shows i (tree.texts ++ ss))
    (hlinked : tree.Linked i us) :
    R.Shows i (inFront [] tree.texts) ∧ R.Shows (i + us.length + 1) ss := by
  obtain ⟨htexts, hss⟩ := shows_append.1 h
  rw [length_texts, ← hlinked.length_eq] at hss
  rw [inFront_nil_texts]
  exact ⟨htexts, hss⟩

theorem shows_block {ss : List Bytes} (h : R.Shows i (inFront p ([] :: (tree.texts ++ ss))))
    (hlinked : tree.Linked (i + 1) us) : R.text i = p ∧ R.Shows (i + 1) (inFront [] tree.texts) ∧
      R.Shows (i + us.length + 2) ss := by
  obtain ⟨htext, hparts⟩ := shows_inFront h
  obtain ⟨htree, hss⟩ := shows_texts_append hparts hlinked
  rw [show i + 1 + us.length + 1 = i + us.length + 2 by omega] at hss
  exact ⟨htext, htree, hss⟩

/-- The walk over the tags of a tree, between the texts of the tree, gives what the tree means. -/
theorem Linked.means (h : tree.Linked i us)
    (hplace : ∀ i t, R.tags[i]? = some t → t.span = place i) :
    ∀ p, R.Has i us → R.Shows i (inFront p tree.texts) → Means r files R place tree i us p := by
  induction h with
  | nil =>
    intro p hhas hshows
    obtain ⟨rfl, -⟩ := shows_inFront hshows
    exact means_nil
  | text hn ih =>
    intro p hhas hshows
    rw [texts, inFront_inFront] at hshows
    exact means_text (ih _ hhas hshows)
  | var ht hl hn ih =>
    intro p hhas hshows
    obtain ⟨rfl, hnext⟩ := shows_inFront hshows
    rw [← inFront_nil_texts] at hnext
    exact means_var ht (ih [] hhas.tail hnext)
  | paste ht hl hn ih =>
    intro p hhas hshows
    obtain ⟨rfl, hnext⟩ := shows_inFront hshows
    rw [← inFront_nil_texts] at hnext
    exact means_paste ht (hplace _ _ hhas.head) (ih [] hhas.tail hnext)
  | @branch i _ _ _ _ _ _ bs _ ht hl hc hb hn ihb ihn =>
    intro p hhas hshows
    obtain ⟨rfl, hbody, hnext⟩ := shows_block hshows hb
    rw [← inFront_nil_texts] at hnext
    obtain ⟨hhasb, hhasn⟩ := hhas.block
    exact means_branch ht hl (hplace _ _ hhas.head) hhasb hb (ihb [] hhasb hbody)
      (ihn [] hhasn hnext)
  | @either i _ _ _ _ _ _ _ _ bs os _ ht hl he hc hb ho hn ihb iho ihn =>
    intro p hhas hshows
    have hindex : i + bs.length + 2 + os.length + 1 = i + bs.length + os.length + 3 := by omega
    obtain ⟨rfl, hbody, hparts⟩ := shows_block hshows hb
    obtain ⟨hother, hnext⟩ := shows_texts_append hparts ho
    rw [← inFront_nil_texts, hindex] at hnext
    obtain ⟨hhasb, hrest⟩ := hhas.block
    have hhasn := hrest.right.tail
    rw [hindex] at hhasn
    exact means_either ht hl (hplace _ _ hhas.head) hhasb hrest.left hb ho (ihb [] hhasb hbody)
      (iho [] hrest.left hother) (ihn [] hhasn hnext)
  | @loop i _ _ _ _ _ bs _ ht hl hc hb hn ihb ihn =>
    intro p hhas hshows
    obtain ⟨rfl, hbody, hnext⟩ := shows_block hshows hb
    rw [← inFront_nil_texts] at hnext
    obtain ⟨hhasb, hhasn⟩ := hhas.block
    exact means_loop ht hl (hplace _ _ hhas.head) hhasb hb (ihb [] hhasb hbody)
      (ihn [] hhasn hnext)

/-- A page that spells a plain tree, rendered at whatever level, gives what the tree means. -/
theorem result_pageAt_of_spells (r : Renderer) (files : Files) (levels : Nat) {p : Page}
    (b : Bindings) (hp : tree.plain) (hs : tree.Spells p.source) :
    (r.pageAt files levels p b).result.map Chain.bytes =
      tree.eval r files p.path (spanAt p.source) levels 0 b := by
  obtain ⟨us, hparse, htag, hlinked⟩ := linked_of_spells hp hs
  have hR : ofPage p = .ok ⟨p, us⟩ := by
    rw [ofPage, hparse]
  have hplace : ∀ i t, us[i]? = some t → t.span = spanAt p.source i := by
    intro i t ht
    rw [spanAt, ← htag, List.getElem?_map, ht]
    rfl
  have hshows : Shows ⟨p, us⟩ 0 (inFront [] tree.texts) := by
    rw [inFront_nil_texts, ← hs.2, ← htag]
    exact shows_texts (R := ⟨p, us⟩) rfl
  have hmeans : Means r files ⟨p, us⟩ (spanAt p.source) tree 0 us [] :=
    hlinked.means hplace [] (List.prefix_refl us) hshows
  rw [result_pageAt, hR, Rendering.ok_bind, interpret_eq_walk]
  have hof : (whole ⟨p, us⟩).of us = us := by
    rw [Region.of, whole, List.take_length, List.drop_zero]
  exact (congrArg _ (congrArg _ hof)).trans (hmeans.walk_eq levels b)

end Markup

/-- Rendering a source that spells a plain tree gives what the tree means. -/
theorem render_eq_eval (r : Renderer) (files : Files) (b : Bindings) {tree : Markup}
    {source : Bytes} (hp : tree.plain) (hs : tree.Spells source) :
    (r.render files source b).result.map Chain.bytes =
      tree.eval r files none (Markup.spanAt source) r.maxDepth 0 b :=
  Markup.result_pageAt_of_spells r files r.maxDepth (p := ⟨source, none⟩) b hp hs

/-- An else with a loop behind it, spelled in different ways, and a file that is not there. -/
theorem render_eq_eval_either_loop :
    let tree : Markup := .either false "x" (.var "x" .nil)
      (.loop "l" (.text (.ofString "<") (.var "v" .nil)) .nil)
      (.text (.ofString "; ") (.paste true "f" .nil))
    let source : Bytes := .ofString ("<tmpl_if NAME=\"x\"><TMPL_VAR name=\"x\"><TMPL_ELSE >"
      ++ "<TMPL_LOOP name=\"l\"><<TMPL_VAR  name=\"v\"></TMPL_LOOP></Tmpl_If>; <TMPL_INCL name=\"f\">")
    let b : Bindings := ⟨[("v", [48])], [("l", [⟨[("v", [65])], []⟩, ⟨[], []⟩])]⟩
    (tree.plain ∧ tree.Spells source) ∧
      (Renderer.standard.render (fun _ => .error .notFound) source b).result.map Chain.bytes =
        .ok (.ofString "<A<; ") := by
  intro tree source b
  have hp : tree.plain := rfl
  have hs : tree.Spells source := ⟨by decide +kernel, by decide +kernel⟩
  have hmeans := render_eq_eval Renderer.standard (fun _ => .error .notFound) b hp hs
  exact ⟨⟨hp, hs⟩, hmeans.trans (by decide +kernel)⟩

end Stencil
