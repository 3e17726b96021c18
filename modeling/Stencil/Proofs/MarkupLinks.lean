import Stencil.Proofs.Markup
import Stencil.Proofs.Regions

/-!
# The tags of a plain tree are linked as the tree has them

The search for the partners of an opening tag goes over a whole tree without a change to its depth,
and finds no else where it looks for one, unless the tree has one that counts for it
(`Markup.findLink_tree`). So in a plain tree every block finds the closing tag and the else that it
has in the tree (`Markup.exists_linked`).
-/

namespace Stencil

namespace Markup

/-- The tags, the first of which has the index `i`, are linked as the tree has them. -/
inductive Linked : Markup → (i : Nat) → List LinkedTag → Prop
  | nil {i : Nat} : Linked .nil i []
  | text {i : Nat} {value : Bytes} {next : Markup} {ts : List LinkedTag} (hn : next.Linked i ts) :
    Linked (.text value next) i ts
  | var {i : Nat} {name : String} {next : Markup} {t : LinkedTag} {ts : List LinkedTag}
    (hm : t.mark = ⟨.var, some name, false⟩) (hl : t.link = none) (hn : next.Linked (i + 1) ts) :
    Linked (.var name next) i (t :: ts)
  | paste {i : Nat} {short : Bool} {name : String} {next : Markup} {t : LinkedTag}
    {ts : List LinkedTag}
    (hm : t.mark = ⟨if short then .incl else .includes, some name, false⟩) (hl : t.link = none)
    (hn : next.Linked (i + 1) ts) : Linked (.paste short name next) i (t :: ts)
  | branch {i : Nat} {negated : Bool} {name : String} {body next : Markup} {t c : LinkedTag}
    {bs ts : List LinkedTag} (hm : t.mark = ⟨.conditional negated, some name, false⟩)
    (hl : t.link = some ⟨i + bs.length + 1, none⟩) (hc : c.link = none)
    (hb : body.Linked (i + 1) bs) (hn : next.Linked (i + bs.length + 2) ts) :
    Linked (.branch negated name body next) i (t :: (bs ++ c :: ts))
  | either {i : Nat} {negated : Bool} {name : String} {body other next : Markup}
    {t e c : LinkedTag} {bs os ts : List LinkedTag}
    (hm : t.mark = ⟨.conditional negated, some name, false⟩)
    (hl : t.link = some ⟨i + bs.length + os.length + 2, some (i + bs.length + 1)⟩)
    (he : e.link = none) (hc : c.link = none) (hb : body.Linked (i + 1) bs)
    (ho : other.Linked (i + bs.length + 2) os)
    (hn : next.Linked (i + bs.length + os.length + 3) ts) :
    Linked (.either negated name body other next) i (t :: (bs ++ e :: (os ++ c :: ts)))
  | loop {i : Nat} {name : String} {body next : Markup} {t c : LinkedTag} {bs ts : List LinkedTag}
    (hm : t.mark = ⟨.loopBlock, some name, false⟩)
    (hl : t.link = some ⟨i + bs.length + 1, none⟩) (hc : c.link = none)
    (hb : body.Linked (i + 1) bs) (hn : next.Linked (i + bs.length + 2) ts) :
    Linked (.loop name body next) i (t :: (bs ++ c :: ts))

theorem Linked.length_eq {tree : Markup} {i : Nat} {us : List LinkedTag} (h : tree.Linked i us) :
    us.length = tree.marks.length := by
  induction h with
  | nil => rfl
  | text _ ih => exact ih
  | var _ _ _ ih => simp [marks, ih]
  | paste _ _ _ ih => simp [marks, ih]
  | branch _ _ _ _ _ ihb ihn => simp [marks, ihb, ihn]
  | either _ _ _ _ _ _ _ ihb iho ihn => simp [marks, ihb, iho, ihn]
  | loop _ _ _ _ _ ihb ihn => simp [marks, ihb, ihn]

/-- The links of the tags lead into the region. -/
def LinksInto (g : Region) (us : List LinkedTag) : Prop :=
  ∀ u ∈ us, ∀ link, u.link = some link → g.Holds link.closing

theorem LinksInto.mono {g g' : Region} {us : List LinkedTag} (h : LinksInto g us)
    (hfirst : g'.first ≤ g.first) (hlast : g.last ≤ g'.last) : LinksInto g' us :=
  fun u hu link hl => ⟨hfirst.trans (h u hu link hl).1, (h u hu link hl).2.trans_le hlast⟩

theorem LinksInto.cons {g : Region} {t : LinkedTag} {us : List LinkedTag} (h : LinksInto g us)
    (ht : ∀ link, t.link = some link → g.Holds link.closing) : LinksInto g (t :: us) :=
  List.forall_mem_cons.2 ⟨ht, h⟩

theorem LinksInto.cons_none {g : Region} {t : LinkedTag} {us : List LinkedTag}
    (h : LinksInto g us) (ht : t.link = none) : LinksInto g (t :: us) :=
  h.cons fun _ hl => by simp [ht] at hl

theorem LinksInto.append {g : Region} {us vs : List LinkedTag} (hu : LinksInto g us)
    (hv : LinksInto g vs) : LinksInto g (us ++ vs) :=
  List.forall_mem_append.2 ⟨hu, hv⟩

/-- The tags of a tree are linked among each other. -/
theorem Linked.linksInto {tree : Markup} {i : Nat} {us : List LinkedTag} (h : tree.Linked i us) :
    LinksInto ⟨i, i + us.length⟩ us := by
  induction h with
  | nil => exact fun u hu => absurd hu List.not_mem_nil
  | text _ ih => exact ih
  | var _ hl _ ih | paste _ hl _ ih =>
    refine .cons_none (ih.mono ?_ ?_) hl <;> simp only [List.length_cons] <;> omega
  | branch _ hl hc _ _ ihb ihn | loop _ hl hc _ _ ihb ihn =>
    refine .cons (.append (ihb.mono ?_ ?_) (.cons_none (ihn.mono ?_ ?_) hc)) fun link h => ?_
    · simp only; omega
    · simp only [List.length_cons, List.length_append]; omega
    · simp only; omega
    · simp only [List.length_cons, List.length_append]; omega
    · obtain rfl := Option.some.inj (hl.symm.trans h)
      simp only [Region.Holds, List.length_cons, List.length_append]
      omega
  | either _ hl he hc _ _ _ ihb iho ihn =>
    refine .cons (.append (ihb.mono ?_ ?_) (.cons_none (.append (iho.mono ?_ ?_)
      (.cons_none (ihn.mono ?_ ?_) hc)) he)) fun link h => ?_
    · simp only; omega
    · simp only [List.length_cons, List.length_append]; omega
    · simp only; omega
    · simp only [List.length_cons, List.length_append]; omega
    · simp only; omega
    · simp only [List.length_cons, List.length_append]; omega
    · obtain rfl := Option.some.inj (hl.symm.trans h)
      simp only [Region.Holds, List.length_cons, List.length_append]
      omega

/-- An else of the tree meets the search for the partners of `o` where one block of its kind is
open. -/
def Meets (o : Tag) (depth : Nat) (tree : Markup) : Prop :=
  depth = 1 ∧ o.kind.takesElse ∧ tree.divides (o.kind == .ifBlock)

theorem map_mark_block {o c : Mark} {ms ns : List Mark} {ts : List Tag}
    (h : ts.map Tag.mark = o :: (ms ++ c :: ns)) : ∃ t bs u us, ts = t :: (bs ++ u :: us) ∧
      t.mark = o ∧ bs.map Tag.mark = ms ∧ u.mark = c ∧ us.map Tag.mark = ns := by
  obtain ⟨t, rest, rfl, ht, hrest⟩ := List.map_eq_cons_iff.1 h
  obtain ⟨bs, rest, rfl, hb, hrest⟩ := List.map_eq_append_iff.1 hrest
  obtain ⟨u, us, rfl, hu, hus⟩ := List.map_eq_cons_iff.1 hrest
  exact ⟨t, bs, u, us, rfl, ht, hb, hu, hus⟩

variable {o t : Tag} {i d : Nat} {divider : Option (Nat × Span)}

/-- A tag that is neither an else nor of the opener's kind is passed over. -/
theorem findLink_of_mark {m : Mark} {rest : List Tag} (ht : t.mark = m) (hk : m.kind ≠ o.kind)
    (he : m.kind ≠ .elseMark) (hd : 0 < d) :
    o.findLink i d divider (t :: rest) = o.findLink (i + 1) d divider rest := by
  subst ht
  exact Tag.findLink_of_ne hk hd fun h => he h.2.1

/-- A search that begins in front of a block goes on behind it, if it passes over what is inside.
There the depth is the same, or greater if the block is of the opener's kind. -/
theorem findLink_block {c : Tag} {k : Kind} {name : Option String} {inside rest : List Tag}
    (ht : t.mark = ⟨k, name, false⟩) (hc : c.mark = ⟨k, none, true⟩) (hk : k.isBlock)
    (hd : 0 < d)
    (hi : ∀ d', 0 < d' → (d' = 1 → d = 1 ∧ k ≠ o.kind) →
      o.findLink (i + 1) d' divider (inside ++ c :: rest) =
        o.findLink (i + 1 + inside.length) d' divider (c :: rest)) :
    o.findLink i d divider (t :: (inside ++ c :: rest)) =
      o.findLink (i + inside.length + 2) d divider rest := by
  rw [show i + inside.length + 2 = i + 1 + inside.length + 1 by omega]
  have htk : t.kind = k := congrArg Mark.kind ht
  have hck : c.kind = k := congrArg Mark.kind hc
  have hke : k ≠ .elseMark := by
    rintro rfl
    cases hk
  by_cases hko : k = o.kind
  · rw [Tag.findLink_of_opens (htk.trans hko) (congrArg Mark.closes ht) hd,
      hi (d + 1) (by omega) (by omega)]
    obtain ⟨n, rfl⟩ : ∃ n, d = n + 1 := ⟨d - 1, by omega⟩
    exact Tag.findLink_of_closes_inner (hck.trans hko) (congrArg Mark.closes hc)
  · rw [findLink_of_mark ht hko hke hd, hi d hd fun h => ⟨h, hko⟩]
    exact findLink_of_mark hc hko hke hd

theorem ne_of_block {k : Kind} (ho : o.opensBlock) (hk : k.isBlock = false) : k ≠ o.kind := by
  rintro rfl
  rw [Tag.opensBlock, hk, Bool.and_false] at ho
  cases ho

/-- What the search does not meet in a tree, it does not meet in a part of the tree. -/
theorem not_meets_part {part tree : Markup} {d' : Nat} (he : ¬ tree.Meets o d) (hd : d' = 1 → d = 1)
    (hp : part.divides (o.kind == .ifBlock) → tree.divides (o.kind == .ifBlock)) :
    ¬ part.Meets o d' := fun h => he ⟨hd h.1, h.2.1, hp h.2.2⟩

/-- An else that counts for one kind of conditional block counts for the other. -/
theorem negated_eq {negated : Bool} {k : Kind} (hk : Kind.conditional negated ≠ k)
    (ht : k.takesElse) : negated = (k == .ifBlock) := by
  cases k
  case ifBlock =>
    cases negated
    · exact absurd rfl hk
    · rfl
  case unlessBlock =>
    cases negated
    · rfl
    · exact absurd rfl hk
  all_goals cases ht

/-- The search for partners passes over a tree of which it meets no else. -/
theorem findLink_tree (ho : o.opensBlock) : ∀ (tree : Markup) {ts : List Tag} {i d : Nat}
    {divider : Option (Nat × Span)} (rest : List Tag), ts.map Tag.mark = tree.marks → 0 < d →
      ¬ tree.Meets o d →
        o.findLink i d divider (ts ++ rest) = o.findLink (i + ts.length) d divider rest
  | .nil, ts, i, d, divider, rest, hm, hd, he => by
    obtain rfl := List.map_eq_nil_iff.1 hm
    rfl
  | .text _ next, ts, i, d, divider, rest, hm, hd, he => findLink_tree ho next rest hm hd he
  | .var name next, ts, i, d, divider, rest, hm, hd, he => by
    obtain ⟨t, us, rfl, ht, hus⟩ := List.map_eq_cons_iff.1 hm
    have hk : Kind.var ≠ o.kind := ne_of_block ho rfl
    rw [List.cons_append, findLink_of_mark ht hk nofun hd,
      findLink_tree ho next rest hus hd he, List.length_cons]
    congr 1
    omega
  | .paste short name next, ts, i, d, divider, rest, hm, hd, he => by
    obtain ⟨t, us, rfl, ht, hus⟩ := List.map_eq_cons_iff.1 hm
    have hk : (if short then Kind.incl else .includes) ≠ o.kind :=
      ne_of_block ho (by cases short <;> rfl)
    have hne : (if short then Kind.incl else .includes) ≠ .elseMark := by cases short <;> decide
    rw [List.cons_append, findLink_of_mark ht hk hne hd, findLink_tree ho next rest hus hd he,
      List.length_cons]
    congr 1
    omega
  | .branch _ _ body next, ts, i, d, divider, rest, hm, hd, he
  | .loop _ body next, ts, i, d, divider, rest, hm, hd, he => by
    obtain ⟨t, bs, c, us, rfl, ht, hb, hc, hus⟩ := map_mark_block hm
    have hnext : ¬ next.Meets o d := not_meets_part he id (by simp +contextual [divides])
    rw [List.cons_append, List.append_assoc, List.cons_append,
      findLink_block ht hc (by simp) hd fun d' hpos hd' =>
        findLink_tree ho body _ hb hpos <|
          not_meets_part he (fun h => (hd' h).1) (by simp +contextual [divides]),
      findLink_tree ho next rest hus hd hnext]
    congr 1
    simp only [List.length_cons, List.length_append]
    omega
  | .either negated name body other next, ts, i, d, divider, rest, hm, hd, he => by
    obtain ⟨t, bs, e, rest', rfl, ht, hb, hme, hrest⟩ := map_mark_block hm
    obtain ⟨os, rest', rfl, hos, hrest⟩ := List.map_eq_append_iff.1 hrest
    obtain ⟨c, us, rfl, hc, hus⟩ := List.map_eq_cons_iff.1 hrest
    have hnext : ¬ next.Meets o d := not_meets_part he id (by simp +contextual [divides])
    -- the else is met at the depth of the opener only if the block is of the other kind
    have helse : ∀ d', (d' = 1 → d = 1 ∧ Kind.conditional negated ≠ o.kind) →
        ¬ (d' = 1 ∧ e.kind = .elseMark ∧ o.kind.takesElse) := by
      rintro d' hd' ⟨h1, -, htakes⟩
      refine he ⟨(hd' h1).1, htakes, ?_⟩
      simp [divides, negated_eq (hd' h1).2 htakes]
    have hek : e.kind ≠ o.kind := by
      rw [show e.kind = .elseMark from congrArg Mark.kind hme]
      exact ne_of_block ho rfl
    rw [show t :: (bs ++ e :: (os ++ c :: us)) ++ rest
        = t :: ((bs ++ e :: os) ++ c :: (us ++ rest)) by simp,
      findLink_block ht hc (by simp) hd fun d' hpos hd' => by
        rw [List.append_assoc, List.cons_append,
          findLink_tree ho body _ hb hpos <|
            not_meets_part he (fun h => (hd' h).1) (by simp +contextual [divides]),
          Tag.findLink_of_ne hek hpos (helse d' hd'),
          findLink_tree ho other _ hos hpos <|
            not_meets_part he (fun h => (hd' h).1) (by simp +contextual [divides])]
        congr 1
        simp only [List.length_cons, List.length_append]
        omega,
      findLink_tree ho next rest hus hd hnext]
    congr 1
    simp only [List.length_cons, List.length_append]
    omega

/-! ## Matching gives the links -/

/-- Matching gives the tags, the first of which has the index `i`, these links, whatever tags
follow. -/
def Gets (i : Nat) (us : List LinkedTag) : Prop :=
  ∀ rest, Tag.linksFrom i (us.map (·.toTag) ++ rest) =
    us.map (·.link.map .ok) ++ Tag.linksFrom (i + us.length) rest

variable {us vs : List LinkedTag}

theorem gets_nil : Gets i [] := fun _ => rfl

theorem Gets.append (hu : Gets i us) (hv : Gets (i + us.length) vs) : Gets i (us ++ vs) := by
  intro rest
  rw [List.map_append, List.append_assoc, hu, hv, List.map_append, List.append_assoc,
    List.length_append, Nat.add_assoc]

/-- A tag that opens no block gets no link. -/
theorem Gets.cons (ht : t.opensBlock = false) (hu : Gets (i + 1) us) :
    Gets i (⟨t, none⟩ :: us) := by
  intro rest
  simp only [List.map_cons, List.cons_append, Tag.linksFrom, ht]
  rw [hu, List.length_cons, show i + 1 + us.length = i + (us.length + 1) by omega]
  rfl

/-- An opening tag that finds its partners among the tags gets its link. -/
theorem Gets.opens {link : Link} (ht : t.opensBlock)
    (hf : ∀ rest, t.findLink (i + 1) 1 none (us.map (·.toTag) ++ rest) = .ok link)
    (hu : Gets (i + 1) us) : Gets i (⟨t, some link⟩ :: us) := by
  intro rest
  simp only [List.map_cons, List.cons_append, Tag.linksFrom, ht, if_true]
  rw [hu, hf, List.length_cons, show i + 1 + us.length = i + (us.length + 1) by omega]
  rfl

theorem opensBlock_of_mark {m : Mark} (ht : t.mark = m) :
    t.opensBlock = (!m.closes && m.kind.isBlock) := by
  subst ht
  rfl

/-- Inside a conditional block of a plain tree, its search meets no else of another block. -/
theorem not_meets_of_divides {negated : Bool} {tree : Markup} {name : Option String}
    (ho : o.mark = ⟨.conditional negated, name, false⟩) (h : tree.divides (!negated) = false) :
    ¬ tree.Meets o d := by
  have hk : o.kind = .conditional negated := congrArg Mark.kind ho
  rintro ⟨-, -, hdiv⟩
  rw [hk, show (Kind.conditional negated == .ifBlock) = !negated by cases negated <;> rfl,
    h] at hdiv
  cases hdiv

theorem not_meets_loop {tree : Markup} {name : Option String}
    (ho : o.mark = ⟨.loopBlock, name, false⟩) : ¬ tree.Meets o d := by
  have hk : o.kind = .loopBlock := congrArg Mark.kind ho
  rintro ⟨-, htakes, -⟩
  rw [hk] at htakes
  cases htakes

/-- An opening tag finds the closing tag behind a body of which it meets no else. -/
theorem findLink_body {k : Kind} {name : Option String} {body : Markup} {c : Tag}
    {bs : List Tag} (ht : t.mark = ⟨k, name, false⟩) (hk : k.isBlock)
    (hc : c.mark = ⟨k, none, true⟩) (hb : bs.map Tag.mark = body.marks) (he : ¬ body.Meets t 1)
    (rest : List Tag) :
    t.findLink i 1 divider (bs ++ c :: rest) = .ok ⟨i + bs.length, divider.map (·.1)⟩ := by
  have hck : c.kind = t.kind := (congrArg Mark.kind hc).trans (congrArg Mark.kind ht).symm
  rw [findLink_tree (by simp [opensBlock_of_mark ht, hk]) body _ hb Nat.one_pos he]
  exact Tag.findLink_of_closes hck (congrArg Mark.closes hc)

theorem gets_block {k : Kind} {name : Option String} {body : Markup} {c : Tag}
    (ht : t.mark = ⟨k, name, false⟩) (hk : k.isBlock) (hc : c.mark = ⟨k, none, true⟩)
    (hb : (us.map (·.toTag)).map Tag.mark = body.marks) (he : ¬ body.Meets t 1)
    (hu : Gets (i + 1) us) (hv : Gets (i + us.length + 2) vs) :
    Gets i (⟨t, some ⟨i + us.length + 1, none⟩⟩ :: (us ++ ⟨c, none⟩ :: vs)) := by
  have hopens : t.opensBlock := by simp [opensBlock_of_mark ht, hk]
  refine .opens hopens (fun rest => ?_) (hu.append (.cons (opensBlock_of_mark hc) ?_))
  · rw [List.map_append, List.append_assoc, List.map_cons, List.cons_append,
      findLink_body ht hk hc hb he, List.length_map, Nat.add_right_comm]
    rfl
  · rwa [show i + 1 + us.length + 1 = i + us.length + 2 by omega]

theorem gets_either {negated : Bool} {name : Option String} {body other : Markup} {e c : Tag}
    {ws : List LinkedTag} (ht : t.mark = ⟨.conditional negated, name, false⟩)
    (hme : e.mark = ⟨.elseMark, none, false⟩) (hc : c.mark = ⟨.conditional negated, none, true⟩)
    (hb : (us.map (·.toTag)).map Tag.mark = body.marks) (he : ¬ body.Meets t 1)
    (ho : (vs.map (·.toTag)).map Tag.mark = other.marks) (he' : ¬ other.Meets t 1)
    (hu : Gets (i + 1) us) (hv : Gets (i + us.length + 2) vs)
    (hw : Gets (i + us.length + vs.length + 3) ws) :
    Gets i (⟨t, some ⟨i + us.length + vs.length + 2, some (i + us.length + 1)⟩⟩ ::
      (us ++ ⟨e, none⟩ :: (vs ++ ⟨c, none⟩ :: ws))) := by
  have hopens : t.opensBlock := by simp [opensBlock_of_mark ht]
  have htakes : t.kind.takesElse := by
    rw [show t.kind = .conditional negated from congrArg Mark.kind ht]
    cases negated <;> rfl
  refine .opens hopens (fun rest => ?_) (hu.append (.cons (opensBlock_of_mark hme)
    (.append ?_ (.cons (opensBlock_of_mark hc) ?_))))
  · simp only [List.map_append, List.append_assoc, List.map_cons, List.cons_append]
    rw [findLink_tree hopens body _ hb Nat.one_pos he,
      Tag.findLink_of_else (congrArg Mark.kind hme) htakes, findLink_body ht (by simp) hc ho he']
    rw [List.length_map, List.length_map, Option.map_some, Nat.add_right_comm i 1,
      show i + us.length + 1 + 1 + vs.length = i + us.length + vs.length + 2 by omega]
  · rwa [show i + 1 + us.length + 1 = i + us.length + 2 by omega]
  · rwa [show i + 1 + us.length + 1 + vs.length + 1 = i + us.length + vs.length + 3 by omega]

/-- The tags of a plain tree get the links that the tree has. -/
theorem exists_linked : ∀ (tree : Markup) {ts : List Tag} (i : Nat), tree.plain →
    ts.map Tag.mark = tree.marks →
      ∃ us : List LinkedTag, us.map (·.toTag) = ts ∧ tree.Linked i us ∧ Gets i us
  | .nil, ts, i, hp, hm => by
    obtain rfl := List.map_eq_nil_iff.1 hm
    exact ⟨[], rfl, .nil, gets_nil⟩
  | .text _ next, ts, i, hp, hm => by
    obtain ⟨us, htag, hlinked, hgets⟩ := exists_linked next i hp hm
    exact ⟨us, htag, .text hlinked, hgets⟩
  | .var name next, ts, i, hp, hm => by
    obtain ⟨t, ts, rfl, ht, hts⟩ := List.map_eq_cons_iff.1 hm
    obtain ⟨us, rfl, hlinked, hgets⟩ := exists_linked next (i + 1) hp hts
    exact ⟨⟨t, none⟩ :: us, rfl, .var ht rfl hlinked, .cons (opensBlock_of_mark ht) hgets⟩
  | .paste short name next, ts, i, hp, hm => by
    obtain ⟨t, ts, rfl, ht, hts⟩ := List.map_eq_cons_iff.1 hm
    obtain ⟨us, rfl, hlinked, hgets⟩ := exists_linked next (i + 1) hp hts
    have hopens : t.opensBlock = false := (opensBlock_of_mark ht).trans (by cases short <;> rfl)
    exact ⟨⟨t, none⟩ :: us, rfl, .paste ht rfl hlinked, .cons hopens hgets⟩
  | .branch negated name body next, ts, i, hp, hm => by
    obtain ⟨t, bs, c, ts, rfl, ht, hb, hc, hts⟩ := map_mark_block hm
    simp only [plain, Bool.and_eq_true, Bool.not_eq_true'] at hp
    obtain ⟨⟨hdiv, hpb⟩, hpn⟩ := hp
    obtain ⟨bs, rfl, hlb, hgb⟩ := exists_linked body (i + 1) hpb hb
    obtain ⟨us, rfl, hln, hgn⟩ := exists_linked next (i + bs.length + 2) hpn hts
    exact ⟨⟨t, some ⟨i + bs.length + 1, none⟩⟩ :: (bs ++ ⟨c, none⟩ :: us), by simp,
      .branch ht rfl rfl hlb hln,
      gets_block ht (by simp) hc hb (not_meets_of_divides ht hdiv) hgb hgn⟩
  | .either negated name body other next, ts, i, hp, hm => by
    obtain ⟨t, bs, e, rest', rfl, ht, hb, hme, hrest⟩ := map_mark_block hm
    obtain ⟨os, rest', rfl, hos, hrest⟩ := List.map_eq_append_iff.1 hrest
    obtain ⟨c, us, rfl, hc, hus⟩ := List.map_eq_cons_iff.1 hrest
    simp only [plain, Bool.and_eq_true, Bool.not_eq_true'] at hp
    obtain ⟨⟨⟨⟨hdb, hdo⟩, hpb⟩, hpo⟩, hpn⟩ := hp
    obtain ⟨bs, rfl, hlb, hgb⟩ := exists_linked body (i + 1) hpb hb
    obtain ⟨os, rfl, hlo, hgo⟩ := exists_linked other (i + bs.length + 2) hpo hos
    obtain ⟨us, rfl, hln, hgn⟩ := exists_linked next (i + bs.length + os.length + 3) hpn hus
    exact ⟨⟨t, some ⟨i + bs.length + os.length + 2, some (i + bs.length + 1)⟩⟩ ::
      (bs ++ ⟨e, none⟩ :: (os ++ ⟨c, none⟩ :: us)), by simp, .either ht rfl rfl rfl hlb hlo hln,
      gets_either ht hme hc hb (not_meets_of_divides ht hdb) hos (not_meets_of_divides ht hdo) hgb
        hgo hgn⟩
  | .loop name body next, ts, i, hp, hm => by
    obtain ⟨t, bs, c, ts, rfl, ht, hb, hc, hts⟩ := map_mark_block hm
    simp only [plain, Bool.and_eq_true] at hp
    obtain ⟨bs, rfl, hlb, hgb⟩ := exists_linked body (i + 1) hp.1 hb
    obtain ⟨us, rfl, hln, hgn⟩ := exists_linked next (i + bs.length + 2) hp.2 hts
    exact ⟨⟨t, some ⟨i + bs.length + 1, none⟩⟩ :: (bs ++ ⟨c, none⟩ :: us), by simp,
      .loop ht rfl rfl hlb hln, gets_block ht rfl hc hb (not_meets_loop ht) hgb hgn⟩

/-- A source that spells a plain tree is read without fault, with the links of the tree. -/
theorem linked_of_spells {tree : Markup} {source : Bytes} (hp : tree.plain)
    (hs : tree.Spells source) : ∃ us, Template.parse source = .ok ⟨⟨0, source.length⟩, us⟩ ∧
      us.map (·.toTag) = Tag.scan source ⟨0, source.length⟩ ∧ tree.Linked 0 us := by
  obtain ⟨us, htag, hlinked, hgets⟩ := exists_linked tree 0 hp hs.1
  have hlinks : Tag.links (Tag.scan source ⟨0, source.length⟩) = us.map (·.link.map .ok) := by
    have hall := hgets []
    rw [htag, List.append_nil, Tag.linksFrom, List.append_nil] at hall
    exact hall
  have hfaults : Tag.blockFaults (Tag.scan source ⟨0, source.length⟩) = [] := by
    rw [Tag.blockFaults, hlinks, List.filterMap_map, List.filterMap_eq_nil_iff]
    intro u hu
    rcases hl : u.link with _ | link <;> simp [hl]
  have htags : LinkedTag.ofTags (Tag.scan source ⟨0, source.length⟩) = us := by
    refine LinkedTag.eq_of_map_eq ((LinkedTag.map_toTag_ofTags _).trans htag.symm) ?_
    rw [LinkedTag.map_link_ofTags, hlinks, List.map_map]
    refine List.map_congr_left fun u hu => ?_
    rcases hl : u.link with _ | link <;> simp [hl, Except.toOption]
  refine ⟨us, ?_, htag, hlinked⟩
  rw [Template.parse, Template.parseRange, Template.ofTags, hfaults, htags]

end Markup

end Stencil
