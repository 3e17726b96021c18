import Mathlib.Data.List.Basic
import Stencil.Named
import Stencil.Proofs.Matching

/-!
# Matching is one pass with a stack for each kind of block

Matching looks from each opening tag on for its partners, with a counter of its own. The pass
below reads the tags once: opening tags wait on the stack of their kind, a closing tag takes the
top one off, and an else goes to the top conditional of each kind. Both give every opening tag the
same link or the same fault (`links_eq_pass`).

The counter of a tag that waits is the number of tags above it on its stack, and one more. So what
the tag is still to be given can be told from the stack and the tags left (`Lane.Promises`), and no
tag read changes it (`Lane.promises_step`).
-/

namespace Stencil

/-- An opening tag that waits for its closing tag. -/
structure Waiting where
  index : Nat
  tag : Tag
  /-- The else that has been recorded for it. -/
  divider : Option (Nat × Span)
  /-- Whether a second else has come. -/
  bad : Bool

/-- The stack of one kind of block, the last opened tag first, and what has been settled, by the
index of the opening tag. -/
structure Lane where
  stack : List Waiting
  settled : Named Nat (Except BlockFault Link)

namespace Lane

/-- Nothing waits and nothing is settled. -/
def empty : Lane := ⟨[], []⟩

/-- An opening tag goes to the top. -/
def push (i : Nat) (t : Tag) (l : Lane) : Lane := { l with stack := ⟨i, t, none, false⟩ :: l.stack }

/-- A closing tag takes the top one off and is its partner, unless that one is bad. -/
def pop (i : Nat) (l : Lane) : Lane :=
  match l.stack with
  | [] => l
  | w :: ws =>
    if w.bad then { l with stack := ws }
    else ⟨ws, Named.put w.index (.ok ⟨i, w.divider.map (·.1)⟩) l.settled⟩

/-- An else is recorded for the top one. A second one makes it bad, and it stays. -/
def offer (i : Nat) (span : Span) (l : Lane) : Lane :=
  match l.stack with
  | [] => l
  | w :: ws =>
    if w.bad then l
    else
      match w.divider with
      | none => { l with stack := { w with divider := some (i, span) } :: ws }
      | some (_, first) =>
        ⟨{ w with bad := true } :: ws,
          Named.put w.index (.error (.secondElse w.tag.kind w.tag.span first span)) l.settled⟩

/-- Those that still wait at the end have no closing tag. -/
def unclosed (settled : Named Nat (Except BlockFault Link)) :
    List Waiting → Named Nat (Except BlockFault Link)
  | [] => settled
  | w :: ws =>
    if w.bad then unclosed settled ws
    else Named.put w.index (.error (.unclosed w.tag.kind w.tag.span)) (unclosed settled ws)

/-- What is settled for the opening tag at an index when no tag is left. -/
def result (l : Lane) (i : Nat) : Option (Except BlockFault Link) :=
  Named.get? i (unclosed l.settled l.stack)

end Lane

/-- The three kinds of blocks, each with its stack. -/
structure Pass where
  ifs : Lane
  unlesses : Lane
  loops : Lane

namespace Pass

/-- Before the first tag. -/
def empty : Pass := ⟨.empty, .empty, .empty⟩

/-- Reads the tag at index `i`. -/
def step (p : Pass) (i : Nat) (t : Tag) : Pass :=
  match t.kind, t.closes with
  | .elseMark, _ => { p with ifs := p.ifs.offer i t.span, unlesses := p.unlesses.offer i t.span }
  | .ifBlock, false => { p with ifs := p.ifs.push i t }
  | .ifBlock, true => { p with ifs := p.ifs.pop i }
  | .unlessBlock, false => { p with unlesses := p.unlesses.push i t }
  | .unlessBlock, true => { p with unlesses := p.unlesses.pop i }
  | .loopBlock, false => { p with loops := p.loops.push i t }
  | .loopBlock, true => { p with loops := p.loops.pop i }
  | _, _ => p

/-- Reads the tags, the first of which has the index `i`. -/
def run (p : Pass) : (i : Nat) → List Tag → Pass
  | _, [] => p
  | i, t :: rest => (p.step i t).run (i + 1) rest

/-- The stack of a kind, empty for tags that open no block. -/
def lane (p : Pass) : Kind → Lane
  | .ifBlock => p.ifs
  | .unlessBlock => p.unlesses
  | .loopBlock => p.loops
  | _ => .empty

/-- What the pass over a list of tags settles for each of them. -/
def results (tags : List Tag) : List (Option (Except BlockFault Link)) :=
  tags.zipIdx.map fun (t, i) => ((empty.run 0 tags).lane t.kind).result i

/-- The links that the pass leaves. -/
def links (tags : List Tag) : List (Option Link) := (results tags).map (·.bind (·.toOption))

/-- The faults that the pass finds, by the index of the opening tag. -/
def faults (tags : List Tag) : List BlockFault :=
  (results tags).filterMap fun
    | some (.error e) => some e
    | _ => none

end Pass

/-! ## One kind of block -/

namespace Lane

/-- What a tag does to the stack of a kind. -/
def step (k : Kind) (l : Lane) (i : Nat) (t : Tag) : Lane :=
  if t.kind = k then if t.closes then l.pop i else l.push i t
  else if t.kind = .elseMark ∧ k.takesElse then l.offer i t.span
  else l

/-- What holds of the stack of a kind before the tag at index `i` is read. -/
structure Sound (k : Kind) (i : Nat) (l : Lane) : Prop where
  kind : ∀ w ∈ l.stack, w.tag.kind = k
  below : ∀ w ∈ l.stack, w.index < i
  sorted : l.stack.Pairwise fun w w' => w'.index < w.index
  fresh : ∀ n, i ≤ n → Named.get? n l.settled = none

/-- The tag of index `n` is to be given `r`: it waits, and its counter is the number of tags above
it and one more; or else it is settled. -/
def Promises (i : Nat) (rest : List Tag) (l : Lane) (n : Nat)
    (r : Option (Except BlockFault Link)) : Prop :=
  (∃ above w below, l.stack = above ++ w :: below ∧ w.index = n ∧ w.bad = false ∧
      r = some (w.tag.findLink i (above.length + 1) w.divider rest)) ∨
    (∀ w ∈ l.stack, w.index = n → w.bad = true) ∧ r = Named.get? n l.settled

variable {k : Kind} {i n : Nat} {t : Tag} {l : Lane} {rest : List Tag}
  {r : Option (Except BlockFault Link)}

theorem sound_empty : Sound k i empty := by
  refine ⟨?_, ?_, ?_, ?_⟩ <;> simp [empty]

/-- Recording an else changes neither which tags wait nor their order. -/
theorem sound_replace {w w' : Waiting} {ws : List Waiting}
    {settled : Named Nat (Except BlockFault Link)} (hl : l.stack = w :: ws)
    (hw : w'.index = w.index ∧ w'.tag = w.tag) (h : Sound k i l)
    (hs : ∀ n, i ≤ n → Named.get? n settled = none) : Sound k i ⟨w' :: ws, settled⟩ := by
  obtain ⟨hkind, hbelow, hsorted, -⟩ := h
  rw [hl] at hkind hbelow hsorted
  simp only [List.forall_mem_cons, List.pairwise_cons] at hkind hbelow hsorted
  refine ⟨?_, ?_, ?_, hs⟩ <;>
    simp only [List.forall_mem_cons, List.pairwise_cons, hw.1, hw.2] <;> assumption

theorem fresh_put {v : Except BlockFault Link} (h : Sound k i l) (hn : n < i) :
    ∀ m, i ≤ m → Named.get? m (Named.put n v l.settled) = none := by
  intro m hm
  rw [Named.get?_put, if_neg (by omega)]
  exact h.fresh m hm

theorem Sound.mono (h : Sound k i l) : Sound k (i + 1) l :=
  ⟨h.kind, fun w hw => Nat.lt_succ_of_lt (h.below w hw), h.sorted,
    fun n hn => h.fresh n (by omega)⟩

theorem Sound.push (h : Sound k i l) (ht : t.kind = k) : Sound k (i + 1) (l.push i t) where
  kind := by simpa [Lane.push, ht] using h.kind
  below := by simpa [Lane.push] using h.mono.below
  sorted := by simpa [Lane.push] using ⟨h.below, h.sorted⟩
  fresh := h.mono.fresh

theorem Sound.pop (h : Sound k i l) : Sound k i (l.pop i) := by
  unfold Lane.pop
  split
  · exact h
  · rename_i w ws hl
    have hrest : ∀ settled, (∀ n, i ≤ n → Named.get? n settled = none) →
        Sound k i ⟨ws, settled⟩ := by
      intro settled hs
      refine ⟨fun v hv => h.kind v ?_, fun v hv => h.below v ?_, ?_, hs⟩
      · simp [hl, hv]
      · simp [hl, hv]
      · exact (List.pairwise_cons.1 (hl ▸ h.sorted)).2
    split
    · exact hrest _ h.fresh
    · exact hrest _ (fresh_put h (h.below w (by simp [hl])))

theorem Sound.offer {span : Span} (h : Sound k i l) : Sound k i (l.offer i span) := by
  unfold Lane.offer
  split
  · exact h
  · rename_i w ws hl
    split
    · exact h
    · split
      · exact sound_replace hl ⟨rfl, rfl⟩ h h.fresh
      · exact sound_replace hl ⟨rfl, rfl⟩ h (fresh_put h (h.below w (by simp [hl])))

theorem Sound.step (h : Sound k i l) : Sound k (i + 1) (l.step k i t) := by
  unfold Lane.step
  split_ifs with hk
  · exact h.pop.mono
  · exact h.push hk
  · exact h.offer.mono
  · exact h.mono

/-- What is put for another tag does not touch what the tag of index `n` is to be given. -/
theorem get?_put_of_bad {w : Waiting} {ws : List Waiting} {v : Except BlockFault Link}
    (hl : l.stack = w :: ws) (hw : w.bad = false) (hn : ∀ w ∈ l.stack, w.index = n → w.bad = true) :
    Named.get? n (Named.put w.index v l.settled) = Named.get? n l.settled := by
  rw [Named.get?_put, if_neg]
  rintro rfl
  exact absurd (hn w (by simp [hl]) rfl) (by simp [hw])

theorem promises_push (hn : n < i) (ht : t.kind = k) (hc : t.closes = false) (hs : Sound k i l)
    (h : l.Promises i (t :: rest) n r) : (l.push i t).Promises (i + 1) rest n r := by
  rcases h with ⟨above, w, below, hl, rfl, hw, rfl⟩ | ⟨hbad, rfl⟩
  · have hk : t.kind = w.tag.kind := ht.trans (hs.kind w (by simp [hl])).symm
    refine .inl ⟨⟨i, t, none, false⟩ :: above, w, below, by simp [push, hl], rfl, hw, ?_⟩
    rw [Tag.findLink_of_opens hk hc (Nat.succ_pos _), List.length_cons]
  · refine .inr ⟨?_, rfl⟩
    simp only [push, List.forall_mem_cons]
    exact ⟨by omega, hbad⟩

theorem promises_pop (ht : t.kind = k) (hc : t.closes = true) (hs : Sound k i l)
    (h : l.Promises i (t :: rest) n r) : (l.pop i).Promises (i + 1) rest n r := by
  rcases h with ⟨_ | ⟨a, above⟩, w, below, hl, rfl, hw, rfl⟩ | ⟨hbad, rfl⟩
  · have hk : t.kind = w.tag.kind := ht.trans (hs.kind w (by simp [hl])).symm
    have hlt := (List.pairwise_cons.1 (hl ▸ hs.sorted)).1
    refine .inr ?_
    simp only [List.nil_append] at hl
    simp only [pop, hl, hw, Bool.false_eq_true, if_false]
    refine ⟨fun v hv he => absurd (hlt v hv) (by omega), ?_⟩
    rw [Named.get?_put, if_pos rfl, List.length_nil, Tag.findLink_of_closes hk hc]
  · have hk : t.kind = w.tag.kind := ht.trans (hs.kind w (by simp [hl])).symm
    refine .inl ⟨above, w, below, ?_, rfl, hw, ?_⟩
    · simp only [pop, hl, List.cons_append]
      split <;> rfl
    · rw [List.length_cons, Tag.findLink_of_closes_inner hk hc]
  · unfold pop
    split
    · exact .inr ⟨hbad, rfl⟩
    · rename_i v vs hl
      have hrest : ∀ u ∈ vs, u.index = n → u.bad = true := fun u hu => hbad u (by simp [hl, hu])
      split
      · exact .inr ⟨hrest, rfl⟩
      · rename_i hv
        exact .inr ⟨hrest, (get?_put_of_bad hl (by simpa using hv) hbad).symm⟩

theorem offer_first {w : Waiting} {ws : List Waiting} {span : Span} (hl : l.stack = w :: ws)
    (hw : w.bad = false) (hd : w.divider = none) :
    l.offer i span = { l with stack := { w with divider := some (i, span) } :: ws } := by
  simp [offer, hl, hw, hd]

theorem offer_second {w : Waiting} {ws : List Waiting} {span first : Span} {m : Nat}
    (hl : l.stack = w :: ws) (hw : w.bad = false) (hd : w.divider = some (m, first)) :
    l.offer i span = ⟨{ w with bad := true } :: ws,
      Named.put w.index (.error (.secondElse w.tag.kind w.tag.span first span)) l.settled⟩ := by
  simp [offer, hl, hw, hd]

theorem promises_offer (ht : t.kind = .elseMark) (hk : k.takesElse) (hs : Sound k i l)
    (h : l.Promises i (t :: rest) n r) : (l.offer i t.span).Promises (i + 1) rest n r := by
  rcases h with ⟨_ | ⟨a, above⟩, w, below, hl, rfl, hw, rfl⟩ | ⟨hbad, rfl⟩
  · have ho : w.tag.kind.takesElse := (hs.kind w (by simp [hl])).symm ▸ hk
    have hlt := (List.pairwise_cons.1 (hl ▸ hs.sorted)).1
    rcases hd : w.divider with _ | ⟨m, first⟩
    · rw [offer_first hl hw hd]
      refine .inl ⟨[], { w with divider := some (i, t.span) }, below, rfl, rfl, hw, ?_⟩
      rw [List.length_nil, Tag.findLink_of_else ht ho]
    · rw [offer_second hl hw hd]
      refine .inr ⟨List.forall_mem_cons.2 ⟨fun _ => rfl, fun v hv he => ?_⟩, ?_⟩
      · exact absurd (hlt v hv) (by omega)
      · rw [Named.get?_put, if_pos rfl, List.length_nil, Tag.findLink_of_else_else ht ho]
  · have ho : w.tag.kind.takesElse := (hs.kind w (by simp [hl])).symm ▸ hk
    have hstack : ∃ b, (l.offer i t.span).stack = b :: above ++ w :: below := by
      simp only [offer, hl, List.cons_append]
      split
      · exact ⟨a, hl⟩
      · split <;> exact ⟨_, rfl⟩
    obtain ⟨b, hb⟩ := hstack
    refine .inl ⟨b :: above, w, below, hb, rfl, hw, ?_⟩
    rw [List.length_cons, List.length_cons, Tag.findLink_of_ne (Tag.kind_ne_of_else ht ho)]
    · omega
    · omega
  · unfold offer
    split
    · exact .inr ⟨hbad, rfl⟩
    · rename_i v vs hl
      split
      · exact .inr ⟨hbad, rfl⟩
      · rename_i hv
        have hkeep := hbad
        rw [hl, List.forall_mem_cons] at hkeep
        split
        · refine .inr ⟨List.forall_mem_cons.2 hkeep, rfl⟩
        · refine .inr ⟨List.forall_mem_cons.2 ⟨fun _ => rfl, hkeep.2⟩, ?_⟩
          exact (get?_put_of_bad hl (by simpa using hv) hbad).symm

/-- Reading a tag does not change what any tag before it is to be given. -/
theorem promises_step (hn : n < i) (hs : Sound k i l)
    (h : l.Promises i (t :: rest) n r) : (l.step k i t).Promises (i + 1) rest n r := by
  unfold step
  split_ifs with hk hc he
  · exact promises_pop hk hc hs h
  · exact promises_push hn hk (by simpa using hc) hs h
  · exact promises_offer he.1 he.2 hs h
  · rcases h with ⟨above, w, below, hl, rfl, hw, rfl⟩ | h
    · have hkw := hs.kind w (by simp [hl])
      refine .inl ⟨above, w, below, hl, rfl, hw, ?_⟩
      rw [Tag.findLink_of_ne (by rwa [hkw]) (Nat.succ_pos _)]
      rw [hkw]
      exact fun h => he h.2
    · exact .inr h

/-- What the tag just read is to be given, if it opens a block. -/
theorem promises_new (hs : Sound k i l) (ht : t.kind = k) : (l.step k i t).Promises (i + 1) rest i
    (if t.closes then none else some (t.findLink (i + 1) 1 none rest)) := by
  unfold step
  rw [if_pos ht]
  split_ifs with hc
  · have hp := hs.pop
    exact .inr ⟨fun w hw he => absurd (hp.below w hw) (by omega), (hp.fresh i (Nat.le_refl i)).symm⟩
  · exact .inl ⟨[], ⟨i, t, none, false⟩, l.stack, rfl, rfl, rfl, rfl⟩

/-! ## The end of the tags -/

theorem get?_unclosed_of_bad (settled : Named Nat (Except BlockFault Link)) :
    ∀ ws : List Waiting, (∀ w ∈ ws, w.index = n → w.bad = true) →
      Named.get? n (unclosed settled ws) = Named.get? n settled
  | [], _ => rfl
  | w :: ws, h => by
    have ih := get?_unclosed_of_bad settled ws fun v hv => h v (by simp [hv])
    unfold unclosed
    split_ifs with hw
    · exact ih
    · rw [Named.get?_put, if_neg, ih]
      rintro rfl
      exact hw (h w (by simp) rfl)

theorem get?_unclosed_of_waiting (settled : Named Nat (Except BlockFault Link)) {w : Waiting}
    {below : List Waiting} (hw : w.bad = false) :
    ∀ above : List Waiting, (above ++ w :: below).Pairwise (fun w w' => w'.index < w.index) →
      Named.get? w.index (unclosed settled (above ++ w :: below))
        = some (.error (.unclosed w.tag.kind w.tag.span))
  | [], _ => by simp [unclosed, hw, Named.get?_put]
  | a :: above, h => by
    have hlt := (List.pairwise_cons.1 h).1 w (by simp)
    have ih := get?_unclosed_of_waiting settled hw above (List.pairwise_cons.1 h).2
    rw [List.cons_append, unclosed]
    split_ifs
    · exact ih
    · rw [Named.get?_put, if_neg (by omega), ih]

theorem result_of_promises (hs : Sound k i l) (h : l.Promises i [] n r) : l.result n = r := by
  rcases h with ⟨above, w, below, hl, rfl, hw, rfl⟩ | ⟨hbad, rfl⟩
  · rw [result, hl, get?_unclosed_of_waiting _ hw above (hl ▸ hs.sorted), Tag.findLink]
  · exact get?_unclosed_of_bad _ l.stack hbad

end Lane

/-! ## All tags -/

namespace Pass

variable {k : Kind} {p : Pass} {n : Nat} {r : Option (Except BlockFault Link)}

/-- Each stack is changed by the tags of its kind and by elses alone. -/
theorem lane_step (hk : k.isBlock) (p : Pass) (i : Nat) (t : Tag) :
    (p.step i t).lane k = (p.lane k).step k i t := by
  unfold step Lane.step
  cases k <;> try cases hk
  all_goals
    split <;> simp_all [lane, Kind.takesElse]

theorem lane_empty (k : Kind) : empty.lane k = .empty := by
  cases k <;> rfl

theorem lane_of_not_isBlock (hk : k.isBlock = false) (p : Pass) : p.lane k = .empty := by
  cases k <;> first | rfl | cases hk

/-- A tag already read is given what it was to be given. -/
theorem result_run (hk : k.isBlock) : ∀ (rest : List Tag) (i : Nat) (p : Pass), n < i →
    (p.lane k).Sound k i → (p.lane k).Promises i rest n r → ((p.run i rest).lane k).result n = r
  | [], _, _, _, hs, h => Lane.result_of_promises hs h
  | t :: rest, i, p, hn, hs, h => by
    rw [run]
    refine result_run hk rest (i + 1) (p.step i t) (by omega) ?_ ?_ <;> rw [lane_step hk]
    · exact hs.step
    · exact Lane.promises_step hn hs h

theorem results_run : ∀ (rest : List Tag) (i : Nat) (p : Pass),
    (∀ k, k.isBlock → (p.lane k).Sound k i) →
      ((rest.zipIdx i).map fun (t, m) => ((p.run i rest).lane t.kind).result m)
        = Tag.linksFrom i rest
  | [], _, _, _ => rfl
  | t :: rest, i, p, hs => by
    rw [List.zipIdx_cons, List.map_cons, Tag.linksFrom, run]
    have hs' : ∀ k, k.isBlock → ((p.step i t).lane k).Sound k (i + 1) := by
      intro k hk
      rw [lane_step hk]
      exact (hs k hk).step
    congr 1
    · cases hk : t.kind.isBlock with
      | false => simp [lane_of_not_isBlock hk, Lane.result, Lane.empty, Lane.unclosed,
          Tag.opensBlock, hk]
      | true =>
        have hnew : ((p.step i t).lane t.kind).Promises (i + 1) rest i _ :=
          lane_step hk p i t ▸ Lane.promises_new (hs _ hk) rfl
        simp only []
        rw [result_run hk rest (i + 1) _ (Nat.lt_succ_self i) (hs' _ hk) hnew]
        cases hc : t.closes <;> simp [Tag.opensBlock, hk, hc]
    · exact results_run rest (i + 1) _ hs'

theorem results_eq_links (tags : List Tag) : results tags = Tag.links tags :=
  results_run tags 0 empty fun k _ => lane_empty k ▸ Lane.sound_empty

end Pass

/-- The search of each opening tag for its partners and the one pass with a stack for each kind of
block leave the same links and find the same faults, in the same order. -/
theorem links_eq_pass (tags : List Tag) :
    (LinkedTag.ofTags tags).map (·.toTag) = tags ∧
      (LinkedTag.ofTags tags).map (·.link) = Pass.links tags ∧
      Tag.blockFaults tags = Pass.faults tags := by
  refine ⟨LinkedTag.map_toTag_ofTags tags, ?_, ?_⟩
  · rw [LinkedTag.map_link_ofTags, Pass.links, Pass.results_eq_links]
  · exact congrArg (List.filterMap _) (Pass.results_eq_links tags).symm

end Stencil
