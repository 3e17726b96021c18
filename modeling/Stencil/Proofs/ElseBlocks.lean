import Mathlib.Data.List.Basic
import Mathlib.Data.Nat.Init
import Stencil.Proofs.Matching

/-!
# The blocks that an else divides

The search for a block's partners counts the tags of its own kind alone. Where all blocks are nested
in one another, whatever their kinds, an else so divides the innermost if block around it and the
innermost unless block around it, both where there are both (`divider_iff_of_nested`). A block is at
fault if it would be divided twice.

What decides is which blocks of the kind stand between: the counter is their number, and one more
(`findsFrom_of_around`).
-/

namespace Stencil

/-- A block that is open: the index of its opening tag, and its kind. -/
structure OpenBlock where
  index : Nat
  kind : Kind
  deriving DecidableEq, Repr

namespace Tag

/-- The blocks that are open behind the tag of index `i`, innermost first, when `stack` are open in
front of it. A closing tag has to close the innermost block. -/
def nest (i : Nat) (t : Tag) (stack : List OpenBlock) : Option (List OpenBlock) :=
  if t.kind.isBlock then
    if t.closes then
      match stack with
      | [] => none
      | b :: stack => if b.kind = t.kind then some stack else none
    else some (⟨i, t.kind⟩ :: stack)
  else some stack

/-- The blocks that are open behind the tags, the first of which has the index `i`. -/
def openBehind : (i : Nat) → (stack : List OpenBlock) → List Tag → Option (List OpenBlock)
  | _, stack, [] => some stack
  | i, stack, t :: rest => (t.nest i stack).bind fun stack => openBehind (i + 1) stack rest

/-- The opening and closing tags of all kinds of blocks are one word of brackets in balance. -/
def Nested (tags : List Tag) : Prop := openBehind 0 [] tags = some []

instance (tags : List Tag) : Decidable (Nested tags) := inferInstanceAs (Decidable (_ = _))

/-- The blocks around the tag of an index, innermost first. -/
def around (tags : List Tag) (e : Nat) : List OpenBlock := (openBehind 0 [] (tags.take e)).getD []

/-- The innermost of some blocks that is of a kind. -/
def innermost (p : Kind → Bool) (stack : List OpenBlock) : Option Nat :=
  (stack.find? (p ·.kind)).map (·.index)

/-- The innermost if or unless block around the tag of an index. -/
def conditionalAround (tags : List Tag) (e : Nat) : Option Nat :=
  innermost Kind.takesElse (around tags e)

/-- The innermost if block and the innermost unless block around the tag of an index. -/
def conditionalsAround (tags : List Tag) (e : Nat) : List Nat :=
  [Kind.ifBlock, .unlessBlock].filterMap fun k => innermost (· == k) (around tags e)

/-- The tag of an index is an else. -/
def ElseAt (tags : List Tag) (e : Nat) : Prop := tags[e]?.map (·.kind) = some .elseMark

instance (tags : List Tag) (e : Nat) : Decidable (ElseAt tags e) :=
  inferInstanceAs (Decidable (_ = _))

/-- The else that matching gives the tag of an index. -/
def dividerAt (tags : List Tag) (i : Nat) : Option Nat :=
  ((LinkedTag.ofTags tags)[i]?.bind (·.link)).bind (·.divider)

/-! ## The blocks around a tag -/

variable {tags : List Tag} {i : Nat} {t : Tag} {stack stack' : List OpenBlock}

theorem nest_cases (h : t.nest i stack = some stack') :
    (t.kind.isBlock = false ∧ stack' = stack) ∨
      (t.kind.isBlock ∧ t.closes = false ∧ stack' = ⟨i, t.kind⟩ :: stack) ∨
      (t.kind.isBlock ∧ t.closes ∧ ∃ b, b.kind = t.kind ∧ stack = b :: stack') := by
  unfold nest at h
  split_ifs at h with hk hc
  · rcases stack with _ | ⟨b, stack⟩
    · cases h
    · simp only at h
      split_ifs at h with hb
      obtain rfl := Option.some.inj h
      exact .inr (.inr ⟨hk, hc, b, hb, rfl⟩)
  · exact .inr (.inl ⟨hk, by simpa using hc, (Option.some.inj h).symm⟩)
  · exact .inl ⟨by simpa using hk, (Option.some.inj h).symm⟩

theorem openBehind_append (xs ys : List Tag) : ∀ (i : Nat) (stack : List OpenBlock),
    openBehind i stack (xs ++ ys)
      = (openBehind i stack xs).bind fun stack => openBehind (i + xs.length) stack ys := by
  induction xs with
  | nil => exact fun _ _ => rfl
  | cons t xs ih =>
    intro i stack
    simp only [List.cons_append, openBehind, List.length_cons]
    rcases t.nest i stack with _ | stack'
    · rfl
    · simp only [Option.bind_some]
      rw [ih, Nat.add_right_comm, Nat.add_assoc]

theorem openBehind_take (h : Nested tags) (e : Nat) :
    openBehind 0 [] (tags.take e) = some (around tags e) := by
  rcases ho : openBehind 0 [] (tags.take e) with _ | stack
  · have happ := openBehind_append (tags.take e) (tags.drop e) 0 []
    rw [List.take_append_drop, ho, h] at happ
    cases happ
  · rw [around, ho, Option.getD_some]

theorem around_length (h : Nested tags) : around tags tags.length = [] := by
  rw [around, List.take_length, h, Option.getD_some]

theorem nest_around (h : Nested tags) (ht : tags[i]? = some t) :
    t.nest i (around tags i) = some (around tags (i + 1)) := by
  have hi := (List.getElem?_eq_some_iff.1 ht).1
  have hsucc := openBehind_take h (i + 1)
  rw [List.take_add_one, ht, Option.toList_some, openBehind_append, openBehind_take h i,
    Option.bind_some, List.length_take, Nat.zero_add, Nat.min_eq_left (Nat.le_of_lt hi)] at hsucc
  simpa only [openBehind, Option.bind_fun_some] using hsucc

theorem mem_around_succ (h : Nested tags) (ht : tags[i]? = some t) {x : OpenBlock}
    (hx : x ∈ around tags (i + 1)) : x ∈ around tags i ∨ t.opensBlock ∧ x = ⟨i, t.kind⟩ := by
  rcases nest_cases (nest_around h ht) with ⟨-, he⟩ | ⟨hk, hc, he⟩ | ⟨-, -, b, -, he⟩
  · exact .inl (he ▸ hx)
  · rw [he] at hx
    rcases List.mem_cons.1 hx with rfl | hx
    · exact .inr ⟨by simp [opensBlock, hk, hc], rfl⟩
    · exact .inl hx
  · exact .inl (he ▸ List.mem_cons_of_mem b hx)

theorem around_opens (h : Nested tags) : ∀ i ≤ tags.length, ∀ x ∈ around tags i,
    x.index < i ∧ ∃ t, tags[x.index]? = some t ∧ t.opensBlock ∧ t.kind = x.kind
  | 0, _ => by simp [around, openBehind]
  | i + 1, hi => by
    intro x hx
    have ht := List.getElem?_eq_getElem (Nat.lt_of_succ_le hi)
    rcases mem_around_succ h ht hx with hx | ⟨ho, rfl⟩
    · obtain ⟨hlt, hopens⟩ := around_opens h i (by omega) x hx
      exact ⟨by omega, hopens⟩
    · exact ⟨Nat.lt_succ_self i, _, ht, ho, rfl⟩

theorem around_sorted (h : Nested tags) : ∀ i ≤ tags.length,
    (around tags i).Pairwise fun b b' => b'.index < b.index
  | 0, _ => by simp [around, openBehind]
  | i + 1, hi => by
    have hsorted := around_sorted h i (by omega)
    have ht := List.getElem?_eq_getElem (Nat.lt_of_succ_le hi)
    rcases nest_cases (nest_around h ht) with ⟨-, he⟩ | ⟨-, -, he⟩ | ⟨-, -, b, -, he⟩
    · exact he ▸ hsorted
    · rw [he]
      exact List.pairwise_cons.2 ⟨fun x hx => (around_opens h i (by omega) x hx).1, hsorted⟩
    · rw [he] at hsorted
      exact (List.pairwise_cons.1 hsorted).2

theorem not_around_of_closed (h : Nested tags) {b : Nat} (hb : b < i)
    (hclosed : ∀ x ∈ around tags i, x.index ≠ b) : ∀ e ≤ tags.length, i ≤ e →
      ∀ x ∈ around tags e, x.index ≠ b := by
  intro e he hie
  induction e, hie using Nat.le_induction with
  | base => exact hclosed
  | succ e hie ih =>
    intro x hx
    have ht := List.getElem?_eq_getElem (Nat.lt_of_succ_le he)
    rcases mem_around_succ h ht hx with hx | ⟨-, rfl⟩
    · exact ih (by omega) x hx
    · simp only
      omega

theorem mem_of_innermost {p : Kind → Bool} {b : Nat} (h : innermost p stack = some b) :
    ∃ x ∈ stack, x.index = b ∧ p x.kind := by
  obtain ⟨x, hx, rfl⟩ := Option.map_eq_some_iff.1 h
  exact ⟨x, List.mem_of_find?_eq_some hx, rfl, by simpa using List.find?_some hx⟩

theorem innermost_eq_iff {k : Kind} {b : Nat} {above below : List OpenBlock}
    (hsorted : (above ++ ⟨b, k⟩ :: below).Pairwise fun x y => y.index < x.index) :
    innermost (· == k) (above ++ ⟨b, k⟩ :: below) = some b ↔ above.countP (·.kind == k) = 0 := by
  simp only [innermost, List.find?_append]
  rw [List.countP_eq_zero]
  cases hf : above.find? (·.kind == k) with
  | none => simpa using List.find?_eq_none.1 hf
  | some x =>
    have hx := List.mem_of_find?_eq_some hf
    have hlt := (List.pairwise_append.1 hsorted).2.2 x hx ⟨b, k⟩ (by simp)
    have hk : x.kind == k := by simpa using List.find?_some hf
    simp only [Option.some_or, Option.map_some, Option.some.injEq]
    exact ⟨fun hb => by simp only at hlt; omega, fun hall => absurd hk (hall x hx)⟩

/-! ## The elses of a block -/

/-- The elses from an index on that have the block as the innermost one of its kind around them,
where this is a kind that takes an else. -/
def elsesOf (tags : List Tag) (k : Kind) (b i : Nat) : List Nat :=
  (List.range' i (tags.length - i)).filter fun e =>
    ElseAt tags e ∧ k.takesElse ∧ innermost (· == k) (around tags e) = some b

variable {k : Kind} {b : Nat}

theorem elsesOf_succ (hi : i < tags.length) : elsesOf tags k b i =
    if ElseAt tags i ∧ k.takesElse ∧ innermost (· == k) (around tags i) = some b then
      i :: elsesOf tags k b (i + 1)
    else elsesOf tags k b (i + 1) := by
  rw [elsesOf, show tags.length - i = tags.length - (i + 1) + 1 by omega, List.range'_succ,
    List.filter_cons]
  simp only [decide_eq_true_eq]
  rfl

theorem elsesOf_of_not (hi : i < tags.length) (hn : ¬ (ElseAt tags i ∧ k.takesElse ∧
    innermost (· == k) (around tags i) = some b)) :
    elsesOf tags k b i = elsesOf tags k b (i + 1) := by
  rw [elsesOf_succ hi, if_neg hn]

theorem elsesOf_of_closed (h : Nested tags) (hb : b < i)
    (hclosed : ∀ x ∈ around tags i, x.index ≠ b) : elsesOf tags k b i = [] := by
  rw [elsesOf, List.filter_eq_nil_iff]
  intro e he hdiv
  rw [List.mem_range'_1] at he
  simp only [decide_eq_true_eq] at hdiv
  obtain ⟨x, hx, hxb, -⟩ := mem_of_innermost hdiv.2.2
  exact not_around_of_closed h hb hclosed e (by omega) he.1 x hx hxb

/-- What the search for the partners of a block finds agrees with the elses of the block. -/
def Finds (found : Except BlockFault Link) (elses : List Nat) : Prop :=
  match found with
  | .ok link => elses = link.divider.toList
  | .error _ => 2 ≤ elses.length

theorem not_else_of_isBlock (ht : tags[i]? = some t) (hk : t.kind.isBlock) {P : Prop} :
    ¬ (ElseAt tags i ∧ P) := by
  rintro ⟨helse, -⟩
  have hte : t.kind = .elseMark := by simpa [ElseAt, ht] using helse
  rw [hte] at hk
  cases hk

section Search

variable {o : Tag} {above below : List OpenBlock} {divider : Option (Nat × Span)}
  {rest : List Tag}

/-- While a block is open, the search for its partners finds its elses. The counter is the number of
blocks of the kind inside of it, and one more. -/
def FindsFrom (tags : List Tag) (o : Tag) (b i : Nat) (above : List OpenBlock)
    (divider : Option (Nat × Span)) (rest : List Tag) : Prop :=
  Finds (o.findLink i (above.countP (·.kind == o.kind) + 1) divider rest)
    ((divider.map (·.1)).toList ++ elsesOf tags o.kind b i)

/-- An else of the block is recorded, or is its second one; other tags are passed over. -/
theorem findsFrom_of_not_isBlock (h : Nested tags) (ht : tags[i]? = some t) (ho : o.kind.isBlock)
    (hstack : around tags i = above ++ ⟨b, o.kind⟩ :: below) (hk : t.kind.isBlock = false)
    (hnext : ∀ divider, FindsFrom tags o b (i + 1) above divider rest) :
    FindsFrom tags o b i above divider (t :: rest) := by
  have hlt := (List.getElem?_eq_some_iff.1 ht).1
  have hinner : innermost (· == o.kind) (around tags i) = some b ↔
      above.countP (·.kind == o.kind) = 0 := by
    have hsorted := around_sorted h i (Nat.le_of_lt hlt)
    rw [hstack] at hsorted ⊢
    exact innermost_eq_iff hsorted
  have hne : t.kind ≠ o.kind := by
    intro he
    rw [he, ho] at hk
    cases hk
  unfold FindsFrom
  by_cases hdiv : ElseAt tags i ∧ o.kind.takesElse ∧
      innermost (· == o.kind) (around tags i) = some b
  · rw [elsesOf_succ hlt, if_pos hdiv]
    obtain ⟨helse, htakes, hin⟩ := hdiv
    have hte : t.kind = .elseMark := by simpa [ElseAt, ht] using helse
    rw [hinner.1 hin]
    rcases divider with _ | ⟨n, first⟩
    · rw [Tag.findLink_of_else hte htakes]
      have ih := hnext (some (i, t.span))
      rw [FindsFrom, hinner.1 hin] at ih
      exact ih
    · rw [Tag.findLink_of_else_else hte htakes]
      simp [Finds]
  · have hskip : ¬ (above.countP (·.kind == o.kind) + 1 = 1 ∧ t.kind = .elseMark ∧
        o.kind.takesElse) := by
      rintro ⟨hd, hte, htakes⟩
      exact hdiv ⟨by simp [ElseAt, ht, hte], htakes, hinner.2 (by omega)⟩
    rw [elsesOf_of_not hlt hdiv, Tag.findLink_of_ne hne (Nat.succ_pos _) hskip]
    exact hnext divider

theorem findsFrom_of_opens (ht : tags[i]? = some t) (hk : t.kind.isBlock) (hc : t.closes = false)
    (hnext : FindsFrom tags o b (i + 1) (⟨i, t.kind⟩ :: above) divider rest) :
    FindsFrom tags o b i above divider (t :: rest) := by
  have hlt := (List.getElem?_eq_some_iff.1 ht).1
  unfold FindsFrom at hnext ⊢
  rw [elsesOf_of_not hlt (not_else_of_isBlock ht hk)]
  rw [List.countP_cons] at hnext
  by_cases hko : t.kind = o.kind
  · rw [Tag.findLink_of_opens hko hc (Nat.succ_pos _)]
    simpa [hko] using hnext
  · rw [Tag.findLink_of_ne hko (Nat.succ_pos _) fun hd => by rw [hd.2.1] at hk; cases hk]
    simpa [hko] using hnext

theorem findsFrom_of_closes_inner {a : OpenBlock} (ht : tags[i]? = some t) (hk : t.kind.isBlock)
    (hc : t.closes = true) (ha : a.kind = t.kind)
    (hnext : FindsFrom tags o b (i + 1) above divider rest) :
    FindsFrom tags o b i (a :: above) divider (t :: rest) := by
  have hlt := (List.getElem?_eq_some_iff.1 ht).1
  unfold FindsFrom at hnext ⊢
  rw [elsesOf_of_not hlt (not_else_of_isBlock ht hk), List.countP_cons]
  by_cases hko : t.kind = o.kind
  · rw [if_pos (by simp [ha, hko]), Tag.findLink_of_closes_inner hko hc]
    exact hnext
  · rw [if_neg (by simp [ha, hko]),
      Tag.findLink_of_ne hko (Nat.succ_pos _) fun hd => by rw [hd.2.1] at hk; cases hk]
    exact hnext

/-- The block itself is closed. -/
theorem findsFrom_of_closes (h : Nested tags) (ht : tags[i]? = some t) (hko : t.kind = o.kind)
    (hk : t.kind.isBlock) (hc : t.closes = true) (hb : b < i)
    (hstack : around tags i = ⟨b, o.kind⟩ :: around tags (i + 1)) :
    FindsFrom tags o b i [] divider (t :: rest) := by
  have hlt := (List.getElem?_eq_some_iff.1 ht).1
  have hsorted := around_sorted h i (Nat.le_of_lt hlt)
  rw [hstack] at hsorted
  have hclosed : ∀ y ∈ around tags (i + 1), y.index ≠ b := by
    intro y hy
    have := (List.pairwise_cons.1 hsorted).1 y hy
    simp only at this
    omega
  unfold FindsFrom
  rw [elsesOf_of_not hlt (not_else_of_isBlock ht hk),
    elsesOf_of_closed h (by omega) hclosed, List.append_nil]
  rw [List.countP_nil, Tag.findLink_of_closes hko hc]
  rfl

/-- From behind its opening tag on, the search finds the elses of a block. -/
theorem findsFrom_of_around (h : Nested tags) (ho : o.kind.isBlock) : ∀ (rest : List Tag) {i : Nat}
    (above : List OpenBlock) {below : List OpenBlock} (divider : Option (Nat × Span)),
      tags.drop i = rest → i ≤ tags.length → b < i →
      around tags i = above ++ ⟨b, o.kind⟩ :: below → FindsFrom tags o b i above divider rest
  | [], i, above, _, divider, hrest, hi, hb, hstack => by
    obtain rfl : i = tags.length := by
      have := List.drop_eq_nil_iff.1 hrest
      omega
    rw [around_length h] at hstack
    simp at hstack
  | t :: rest, i, above, _, divider, hrest, hi, hb, hstack => by
    obtain ⟨ht, hrest'⟩ := of_drop_eq_cons hrest
    have hlt := (List.getElem?_eq_some_iff.1 ht).1
    have hnext := @findsFrom_of_around h ho rest (i + 1)
    rcases nest_cases (nest_around h ht) with
      ⟨hk, hsame⟩ | ⟨hk, hc, hopen⟩ | ⟨hk, hc, x, hxk, hx⟩
    · rw [hstack] at hsame
      exact findsFrom_of_not_isBlock h ht ho hstack hk fun divider =>
        hnext above divider hrest' hlt (by omega) hsame
    · rw [hstack] at hopen
      exact findsFrom_of_opens ht hk hc
        (hnext (⟨i, t.kind⟩ :: above) divider hrest' hlt (by omega) hopen)
    · rw [hstack] at hx
      rcases above with _ | ⟨a, above⟩
      · obtain ⟨rfl, hbelow⟩ := List.cons.inj hx
        refine findsFrom_of_closes h ht hxk.symm hk hc hb ?_
        rw [hstack, hbelow]
        rfl
      · obtain ⟨rfl, hbelow⟩ := List.cons.inj hx
        exact findsFrom_of_closes_inner ht hk hc hxk
          (hnext above divider hrest' hlt (by omega) hbelow.symm)

end Search

/-! ## Openers and elses of a nested list -/

variable {e : Nat}

theorem mem_conditionalsAround : b ∈ conditionalsAround tags e ↔
    ∃ k : Kind, k.takesElse ∧ innermost (· == k) (around tags e) = some b := by
  simp only [conditionalsAround, List.mem_filterMap, List.mem_cons, List.not_mem_nil, or_false]
  refine exists_congr fun k => and_congr_left fun _ => ?_
  cases k <;> simp [Kind.takesElse]

theorem lt_length_of_elseAt (h : ElseAt tags e) : e < tags.length := by
  obtain ⟨t, ht, -⟩ := Option.map_eq_some_iff.1 h
  exact (List.getElem?_eq_some_iff.1 ht).1

theorem mem_elsesOf (h : Nested tags) (ht : tags[b]? = some t) :
    e ∈ elsesOf tags t.kind b (b + 1) ↔ ElseAt tags e ∧ b ∈ conditionalsAround tags e := by
  rw [elsesOf, List.mem_filter, List.mem_range'_1, mem_conditionalsAround]
  simp only [decide_eq_true_eq]
  constructor
  · rintro ⟨-, helse, htakes, hin⟩
    exact ⟨helse, _, htakes, hin⟩
  · rintro ⟨helse, k, htakes, hin⟩
    have he := lt_length_of_elseAt helse
    obtain ⟨x, hx, rfl, hxk⟩ := mem_of_innermost hin
    obtain ⟨hlt, u, hu, -, huk⟩ := around_opens h e (Nat.le_of_lt he) x hx
    obtain rfl := Option.some.inj (ht.symm.trans hu)
    obtain rfl : x.kind = k := by simpa using hxk
    exact ⟨by omega, helse, huk ▸ htakes, huk ▸ hin⟩

theorem finds_elsesOf (h : Nested tags) (ht : tags[b]? = some t) (ho : t.opensBlock) :
    Finds (t.findLink (b + 1) 1 none (tags.drop (b + 1))) (elsesOf tags t.kind b (b + 1)) := by
  obtain ⟨hc, hk⟩ : t.closes = false ∧ t.kind.isBlock := by simpa [opensBlock] using ho
  have hnest := nest_around h ht
  simp only [nest, hk, hc, if_true, Bool.false_eq_true, if_false] at hnest
  have hlt := (List.getElem?_eq_some_iff.1 ht).1
  exact findsFrom_of_around h hk _ [] none rfl hlt (Nat.lt_succ_self b)
    (Option.some.inj hnest).symm

theorem opens_of_mem_conditionalsAround (h : Nested tags) (helse : ElseAt tags e)
    (hb : b ∈ conditionalsAround tags e) : ∃ t, tags[b]? = some t ∧ t.opensBlock := by
  obtain ⟨k, -, hin⟩ := mem_conditionalsAround.1 hb
  obtain ⟨x, hx, rfl, -⟩ := mem_of_innermost hin
  obtain ⟨-, t, ht, ho, -⟩ := around_opens h e (Nat.le_of_lt (lt_length_of_elseAt helse)) x hx
  exact ⟨t, ht, ho⟩

theorem opens_of_dividerAt (hd : dividerAt tags b = some e) :
    ∃ t, tags[b]? = some t ∧ t.opensBlock := by
  rw [dividerAt, LinkedTag.getElem?_ofTags] at hd
  rcases ht : tags[b]? with _ | t
  · rw [ht] at hd
    cases hd
  · refine ⟨t, rfl, ?_⟩
    by_contra ho
    rw [ht, Option.map_some, if_neg ho] at hd
    cases hd

theorem dividerAt_of_opens (ht : tags[b]? = some t) (ho : t.opensBlock) {link : Link}
    (hl : t.findLink (b + 1) 1 none (tags.drop (b + 1)) = .ok link) :
    dividerAt tags b = link.divider := by
  rw [dividerAt, LinkedTag.getElem?_ofTags, ht, Option.map_some, if_pos ho, hl]
  rfl

/-- Where no block is at fault, an else divides the innermost block of each kind of conditional. -/
theorem dividerAt_eq_some_iff (h : Nested tags) (hf : blockFaults tags = []) :
    dividerAt tags b = some e ↔ ElseAt tags e ∧ b ∈ conditionalsAround tags e := by
  have hopens : ∀ t, tags[b]? = some t → t.opensBlock →
      (dividerAt tags b = some e ↔ ElseAt tags e ∧ b ∈ conditionalsAround tags e) := by
    intro t ht ho
    obtain ⟨link, hl⟩ := findLink_of_blockFaults_nil hf ht ho
    have hfinds := finds_elsesOf h ht ho
    rw [hl] at hfinds
    rw [dividerAt_of_opens ht ho hl, ← mem_elsesOf h ht, show elsesOf tags _ b (b + 1) = _ from
      hfinds, Option.mem_toList]
  constructor
  · intro hd
    obtain ⟨t, ht, ho⟩ := opens_of_dividerAt hd
    exact (hopens t ht ho).1 hd
  · rintro ⟨helse, hb⟩
    obtain ⟨t, ht, ho⟩ := opens_of_mem_conditionalsAround h helse hb
    exact (hopens t ht ho).2 ⟨helse, hb⟩

/-- A block is at fault if, and only if, two elses would divide it. -/
theorem blockFaults_eq_nil_iff_of_nested (h : Nested tags) : blockFaults tags = [] ↔
    ∀ b e e', ElseAt tags e → ElseAt tags e' → b ∈ conditionalsAround tags e →
      b ∈ conditionalsAround tags e' → e = e' := by
  constructor
  · intro hf b e e' he he' hb hb'
    have hd := (dividerAt_eq_some_iff h hf).2 ⟨he, hb⟩
    have hd' := (dividerAt_eq_some_iff h hf).2 ⟨he', hb'⟩
    exact Option.some.inj (hd.symm.trans hd')
  · intro hall
    rw [blockFaults_eq_nil_iff]
    intro b t ht ho
    have hfinds := finds_elsesOf h ht ho
    rcases hl : t.findLink (b + 1) 1 none (tags.drop (b + 1)) with fault | link
    · -- the search would have met two elses of the block
      rw [hl] at hfinds
      have hnodup : (elsesOf tags t.kind b (b + 1)).Nodup :=
        List.Pairwise.filter _ List.nodup_range'
      have hmem := fun e => @mem_elsesOf tags t b e h ht
      rcases hels : elsesOf tags t.kind b (b + 1) with _ | ⟨e, _ | ⟨e', rest⟩⟩ <;>
        rw [hels] at hfinds hnodup hmem
      · simp [Finds] at hfinds
      · simp [Finds] at hfinds
      · obtain ⟨he, hb⟩ := (hmem e).1 (by simp)
        obtain ⟨he', hb'⟩ := (hmem e').1 (by simp)
        obtain rfl := hall b e e' he he' hb hb'
        simp at hnodup
    · exact ⟨link, rfl⟩

theorem innermost_of_takesElse (hb : innermost Kind.takesElse stack = some b) :
    ∃ x ∈ stack, x.kind.takesElse ∧ innermost (· == x.kind) stack = some b := by
  obtain ⟨x, hx, rfl⟩ := Option.map_eq_some_iff.1 hb
  obtain ⟨htakes, above, below, rfl, habove⟩ := List.find?_eq_some_iff_append.1 hx
  refine ⟨x, by simp, htakes, Option.map_eq_some_iff.2 ⟨x, ?_, rfl⟩⟩
  refine List.find?_eq_some_iff_append.2 ⟨by simp, above, below, rfl, fun y hy => ?_⟩
  have hy' : y.kind.takesElse = false := by simpa using habove y hy
  have hne : y.kind ≠ x.kind := by
    intro he
    rw [he, htakes] at hy'
    cases hy'
  simpa using hne

/-- Where all blocks are nested in one another, matching succeeds if, and only if, no block is the
innermost if block around two elses or the innermost unless block around two. Then every else
divides the innermost conditional block around it, and besides it only the innermost one of the
other kind, if there is one. -/
theorem divider_iff_of_nested (h : Nested tags) :
    (blockFaults tags = [] ↔
      ∀ b e e', ElseAt tags e → ElseAt tags e' → b ∈ conditionalsAround tags e →
        b ∈ conditionalsAround tags e' → e = e') ∧
    (blockFaults tags = [] → ∀ e, ElseAt tags e →
      (∀ i, dividerAt tags i = some e ↔ i ∈ conditionalsAround tags e) ∧
      ∀ b, conditionalAround tags e = some b → dividerAt tags b = some e ∧
        ((∀ x ∈ around tags e, ∀ y ∈ around tags e, x.kind.takesElse → y.kind.takesElse →
          x.kind = y.kind) → ∀ i, dividerAt tags i = some e → i = b)) := by
  refine ⟨blockFaults_eq_nil_iff_of_nested h, fun hf e he => ?_⟩
  have hiff : ∀ i, dividerAt tags i = some e ↔ i ∈ conditionalsAround tags e := fun i =>
    (dividerAt_eq_some_iff h hf).trans (and_iff_right he)
  refine ⟨hiff, fun b hb => ?_⟩
  obtain ⟨x, hx, htakes, hin⟩ := innermost_of_takesElse hb
  refine ⟨(hiff b).2 (mem_conditionalsAround.2 ⟨x.kind, htakes, hin⟩), fun hsame i hi => ?_⟩
  obtain ⟨k, hk, hin'⟩ := mem_conditionalsAround.1 ((hiff i).1 hi)
  obtain ⟨y, hy, -, hyk⟩ := mem_of_innermost hin'
  obtain rfl : y.kind = k := by simpa using hyk
  rw [hsame y hy x hx hk htakes, hin] at hin'
  exact (Option.some.inj hin').symm

/-- An else that a loop, an if block and an unless block are around. -/
theorem divider_iff_of_nested_loop :
    let tags : List Tag := [⟨.unlessBlock, ⟨0, 5⟩, some "a", false⟩,
      ⟨.ifBlock, ⟨10, 15⟩, some "b", false⟩, ⟨.loopBlock, ⟨20, 25⟩, some "c", false⟩,
      ⟨.elseMark, ⟨30, 35⟩, none, false⟩, ⟨.loopBlock, ⟨40, 45⟩, none, true⟩,
      ⟨.ifBlock, ⟨50, 55⟩, none, true⟩, ⟨.unlessBlock, ⟨60, 65⟩, none, true⟩]
    Nested tags ∧ blockFaults tags = [] ∧ ∀ i, dividerAt tags i = some 3 ↔ i = 1 ∨ i = 0 := by
  intro tags
  have h : Nested tags := by decide
  obtain ⟨-, hdivides⟩ := divider_iff_of_nested h
  have hf : blockFaults tags = [] := by decide
  refine ⟨h, hf, fun i => ((hdivides hf 3 (by decide)).1 i).trans ?_⟩
  rw [show conditionalsAround tags 3 = [1, 0] by decide]
  simp

/-- It is not enough that no conditional block is the innermost one around two elses. The else of an
unless block inside an if block divides both blocks; and where the if block has an else of its own,
it is at fault for the other one. -/
theorem not_only_innermost_divided :
    (¬ ∀ tags, Nested tags →
      (∀ b e e', ElseAt tags e → ElseAt tags e' → conditionalAround tags e = some b →
        conditionalAround tags e' = some b → e = e') →
      (∀ e, ElseAt tags e → (conditionalAround tags e).isSome) →
      ∀ e, ElseAt tags e →
        ∃ b, conditionalAround tags e = some b ∧ ∀ i, dividerAt tags i = some e ↔ i = b) ∧
    ¬ ∀ tags, Nested tags →
      (∀ b e e', ElseAt tags e → ElseAt tags e' → conditionalAround tags e = some b →
        conditionalAround tags e' = some b → e = e') →
      (∀ e, ElseAt tags e → (conditionalAround tags e).isSome) →
      blockFaults tags = [] := by
  constructor
  · intro h
    let tags : List Tag := [⟨.ifBlock, ⟨0, 5⟩, some "a", false⟩,
      ⟨.unlessBlock, ⟨10, 15⟩, some "b", false⟩, ⟨.elseMark, ⟨20, 25⟩, none, false⟩,
      ⟨.unlessBlock, ⟨30, 35⟩, none, true⟩, ⟨.ifBlock, ⟨40, 45⟩, none, true⟩]
    have helse : ∀ e, ElseAt tags e → e = 2 := fun e he =>
      (show ∀ e < 5, ElseAt tags e → e = 2 by decide) e (lt_length_of_elseAt he) he
    obtain ⟨b, hb, hall⟩ := h tags (by decide)
      (fun b e e' he he' _ _ => (helse e he).trans (helse e' he').symm)
      (fun e he => helse e he ▸ by decide) 2 (by decide)
    have h0 := (hall 0).1 (by decide)
    have h1 := (hall 1).1 (by decide)
    omega
  · intro h
    let tags : List Tag := [⟨.ifBlock, ⟨0, 5⟩, some "a", false⟩, ⟨.elseMark, ⟨10, 15⟩, none, false⟩,
      ⟨.unlessBlock, ⟨20, 25⟩, some "b", false⟩, ⟨.elseMark, ⟨30, 35⟩, none, false⟩,
      ⟨.unlessBlock, ⟨40, 45⟩, none, true⟩, ⟨.ifBlock, ⟨50, 55⟩, none, true⟩]
    have hone : ∀ e < 6, ∀ e' < 6, ElseAt tags e → ElseAt tags e' →
        conditionalAround tags e = conditionalAround tags e' → e = e' := by decide
    have hsome : ∀ e < 6, ElseAt tags e → (conditionalAround tags e).isSome := by decide
    have hf := h tags (by decide)
      (fun b e e' he he' hb hb' => hone e (lt_length_of_elseAt he) e' (lt_length_of_elseAt he')
        he he' (hb.trans hb'.symm))
      (fun e he => hsome e (lt_length_of_elseAt he) he)
    exact absurd hf (by decide)

end Tag

end Stencil
