import Mathlib.Data.List.Forall2
import Stencil.Proofs.Markup

/-!
# Tags that stand elsewhere

A copy of a tag says the same, and its span is told from the span of the tag where a map of spans
is given (`Tag.Copies`). Matching goes by what the tags say. So the search among copies gives the
link of the copies, or the same fault with its spans moved (`carried_findLink`). Where no map of
spans is given only the links are followed: tags that come behind the copies leave a link as it is,
and may end a search that has failed without them.
-/

namespace Stencil

def Span.shift (n : Nat) (s : Span) : Span := ⟨s.start + n, s.stop + n⟩

def Tag.moved (move : Span → Span) (t : Tag) : Tag := { t with span := move t.span }

def BlockFault.moved (move : Span → Span) : BlockFault → BlockFault
  | .unclosed kind opener => .unclosed kind (move opener)
  | .secondElse kind opener first second =>
    .secondElse kind (move opener) (move first) (move second)

/-- The fault with its spans moved, unless it is one of a file. -/
def RenderFault.moved (move : Span → Span) : RenderFault → RenderFault
  | .blocks faults none => .blocks (faults.map (·.moved move)) none
  | .strayElse span none => .strayElse (move span) none
  | .strayClose kind span none => .strayClose kind (move span) none
  | .tooDeep limit span none => .tooDeep limit (move span) none
  | e => e

def Link.renamed (index : Nat → Nat) (l : Link) : Link := ⟨index l.closing, l.divider.map index⟩

theorem RenderFault.moved_of_path {e : RenderFault} (h : e.path? ≠ none) (move : Span → Span) :
    e.moved move = e := by
  rcases e with ⟨_, _ | _⟩ | ⟨_, _ | _⟩ | ⟨_, _, _ | _⟩ | _ | ⟨_, _, _ | _⟩ <;>
    first | rfl | exact absurd rfl h

theorem BlockFault.moved_id : BlockFault.moved id = id := by
  funext e
  cases e <;> rfl

theorem RenderFault.moved_id : RenderFault.moved id = id := by
  funext e
  rcases e with ⟨_, _ | _⟩ | ⟨_, _ | _⟩ | ⟨_, _, _ | _⟩ | _ | ⟨_, _, _ | _⟩ <;>
    simp [moved, BlockFault.moved_id]

/-! ## Results carried over -/

/-- The second result is that of the first one's copy: a value for a value, and the moved fault for
a fault. Where nothing moves faults, a fault leaves the second result open. -/
inductive Carried {ε α β : Type} (move : Option (ε → ε)) (S : α → β → Prop) :
    Except ε α → Except ε β → Prop
  | ok {a : α} {b : β} (h : S a b) : Carried move S (.ok a) (.ok b)
  | error {f : ε → ε} (hf : move = some f) (e : ε) : Carried move S (.error e) (.error (f e))
  | free (h : move = none) (e : ε) (y : Except ε β) : Carried move S (.error e) y

namespace Carried

variable {ε α β γ δ : Type} {move : Option (ε → ε)} {S S' : α → β → Prop} {T : γ → δ → Prop}
  {x : Except ε α} {y : Except ε β}

theorem mono (h : Carried move S x y) (hS : ∀ a b, S a b → S' a b) : Carried move S' x y := by
  cases h with
  | ok h => exact .ok (hS _ _ h)
  | error hf e => exact .error hf e
  | free h e y => exact .free h e y

theorem bind {f : α → Except ε γ} {g : β → Except ε δ} (h : Carried move S x y)
    (hfg : ∀ a b, x = .ok a → S a b → Carried move T (f a) (g b)) :
    Carried move T (x >>= f) (y >>= g) := by
  cases h with
  | ok h => exact hfg _ _ rfl h
  | error hf e => exact .error hf e
  | free h e y => exact .free h e _

theorem map {f : α → γ} {g : β → δ} (h : Carried move S x y) (hfg : ∀ a b, S a b → T (f a) (g b)) :
    Carried move T (x.map f) (y.map g) := by
  cases h with
  | ok h => exact .ok (hfg _ _ h)
  | error hf e => exact .error hf e
  | free h e y => exact .free h e _

theorem of_ok (h : Carried none S x y) {a : α} (hx : x = .ok a) : ∃ b, y = .ok b ∧ S a b := by
  subst hx
  cases h with
  | ok h => exact ⟨_, rfl, h⟩

theorem eq_mapError {f : ε → ε} {y : Except ε α} (h : Carried (some f) Eq x y) :
    y = x.mapError f := by
  cases h with
  | ok h => exact congrArg Except.ok h.symm
  | error hf e =>
    obtain rfl := Option.some.inj hf
    rfl
  | free h => cases h

/-- What is carried over with its faults moved is the result whose faults have been moved. -/
theorem mapError {f : ε → ε} (h : Carried (some f) S x y) :
    Carried (some id) S (x.mapError f) y := by
  cases h with
  | ok h => exact .ok h
  | error hf e =>
    obtain rfl := Option.some.inj hf
    exact .error rfl (f e)
  | free h => cases h

theorem refl {R : α → α → Prop} (hR : ∀ a, R a a) (h : ∀ f ∈ move, ∀ e, x = .error e → f e = e) :
    Carried move R x x := by
  rcases x with e | a
  · rcases hm : move with _ | f
    · exact .free rfl e _
    · have herror : Carried (some f) R (.error e) (.error (f e)) := .error rfl e
      rwa [h f hm e rfl] at herror
  · exact .ok (hR a)

end Carried

/-! ## Copies -/

/-- The second tag says what the first one says, in another place. -/
structure Tag.Copies (m : Option (Span → Span)) (t t' : Tag) : Prop where
  mark : t'.mark = t.mark
  span : ∀ move ∈ m, t'.span = move t.span

/-- The copies stand in the other list where `index` tells. -/
structure LinkedTag.Copies (m : Option (Span → Span)) (index : Nat → Nat) (t t' : LinkedTag) :
    Prop extends Tag.Copies m t.toTag t'.toTag where
  link : t'.link = t.link.map (·.renamed index)

namespace Tag

variable {m : Option (Span → Span)} {index : Nat → Nat} {o o' t t' : Tag}
  {xs xs' rest rest' : List Tag} {i j : Nat}

namespace Copies

theorem refl (t : Tag) : Copies none t t := ⟨rfl, nofun⟩

theorem moved {move : Span → Span} (hm : ∀ f ∈ m, f = move) (t : Tag) :
    Copies m t (t.moved move) := by
  refine ⟨rfl, fun f hf => ?_⟩
  rw [hm f hf]
  rfl

theorem kind (h : Copies m t t') : t'.kind = t.kind := congrArg Mark.kind h.mark

theorem closes (h : Copies m t t') : t'.closes = t.closes := congrArg Mark.closes h.mark

theorem nameOrEmpty (h : Copies m t t') : t'.nameOrEmpty = t.nameOrEmpty := by
  unfold Tag.nameOrEmpty
  rw [show t'.name = t.name from congrArg Mark.name h.mark]

theorem opensBlock (h : Copies m t t') : t'.opensBlock = t.opensBlock := by
  simp [Tag.opensBlock, h.kind, h.closes]

theorem depthAfter (ho : Copies m o o') (ht : Copies m t t') (d : Nat) :
    o'.depthAfter t' d = o.depthAfter t d := by
  simp [Tag.depthAfter, ho.kind, ht.kind, ht.closes]

end Copies

/-- What the search has found of an else, carried over. -/
def DividerCopies (m : Option (Span → Span)) (index : Nat → Nat) :
    Option (Nat × Span) → Option (Nat × Span) → Prop :=
  Option.Rel fun x y => y.1 = index x.1 ∧ ∀ move ∈ m, y.2 = move x.2

theorem DividerCopies.map_fst {divider divider' : Option (Nat × Span)}
    (h : DividerCopies m index divider divider') :
    divider'.map (·.1) = (divider.map (·.1)).map index := by
  cases h with
  | none => rfl
  | some h => exact congrArg some h.1

/-- The search among copies goes where the search among the tags goes, and it goes on among the tags
behind them if that does. -/
theorem carried_findLink (ho : o.Copies m o') (hxs : List.Forall₂ (Copies m) xs xs') :
    ∀ {i j d : Nat} {divider divider' : Option (Nat × Span)},
      (∀ n < xs.length, index (i + n) = j + n) → 0 < d → DividerCopies m index divider divider' →
      (∀ d divider divider', 0 < d → DividerCopies m index divider divider' →
        Carried (m.map BlockFault.moved) (fun l l' => l' = l.renamed index)
          (o.findLink (i + xs.length) d divider rest)
          (o'.findLink (j + xs.length) d divider' rest')) →
      Carried (m.map BlockFault.moved) (fun l l' => l' = l.renamed index)
        (o.findLink i d divider (xs ++ rest)) (o'.findLink j d divider' (xs' ++ rest')) := by
  induction hxs with
  | nil =>
    intro i j d divider divider' _ hd hdiv hend
    exact hend d divider divider' hd hdiv
  | @cons t t' xs xs' ht _ ih =>
    intro i j d divider divider' hindex hd hdiv hend
    have hhead : index i = j := hindex 0 (Nat.succ_pos _)
    have htail : ∀ n < xs.length, index (i + 1 + n) = j + 1 + n := by
      intro n hn
      have := hindex (n + 1) (Nat.succ_lt_succ hn)
      rwa [← Nat.add_assoc, Nat.add_right_comm, ← Nat.add_assoc, Nat.add_right_comm j] at this
    rw [List.length_cons, ← Nat.add_assoc, Nat.add_right_comm, ← Nat.add_assoc j,
      Nat.add_right_comm j] at hend
    simp only [List.cons_append, findLink, ho.depthAfter ht, ht.kind, ho.kind]
    split_ifs with h0 h1
    · exact .ok (by rw [Link.renamed, hhead, hdiv.map_fst])
    · cases hdiv with
      | none => exact ih htail (Nat.pos_of_ne_zero h0) (.some ⟨hhead.symm, ht.span⟩) hend
      | @some x y h =>
        rcases m with _ | move
        · exact .free rfl _ _
        · have herror := Carried.error (S := fun l l' : Link => l' = l.renamed index)
            (rfl : some (BlockFault.moved move) = _) (.secondElse o.kind o.span x.2 t.span)
          rwa [BlockFault.moved, ← h.2 move rfl, ← ho.span move rfl, ← ht.span move rfl] at herror
    · exact ih htail (Nat.pos_of_ne_zero h0) hdiv hend

theorem forall₂_moved {move : Span → Span} (hm : ∀ f ∈ m, f = move) (xs : List Tag) :
    List.Forall₂ (Copies m) xs (xs.map (·.moved move)) := by
  rw [List.forall₂_map_right_iff, List.forall₂_same]
  exact fun t _ => Copies.moved hm t

/-! ## A list inside another one -/

/-- A link stays when its tags are moved and others stand around them. -/
theorem findLink_between (xs zs : List Tag) (move : Span → Span) {ys : List Tag} {link : Link}
    (ht : ys[i]? = some t) (hl : t.findLink (i + 1) 1 none (ys.drop (i + 1)) = .ok link) :
    (t.moved move).findLink (i + xs.length + 1) 1 none
        ((xs ++ ys.map (·.moved move) ++ zs).drop (i + xs.length + 1)) =
      .ok (link.renamed (· + xs.length)) := by
  have hi := (List.getElem?_eq_some_iff.1 ht).1
  have hdrop : (xs ++ ys.map (·.moved move) ++ zs).drop (i + xs.length + 1) =
      (ys.drop (i + 1)).map (·.moved move) ++ zs := by
    rw [List.append_assoc, show i + xs.length + 1 = xs.length + (i + 1) by omega,
      ← List.drop_drop, List.drop_left,
      List.drop_append_of_le_length (by simpa using Nat.succ_le_of_lt hi), List.map_drop]
  have hcarried : Carried none (fun l l' => l' = l.renamed (· + xs.length))
      (t.findLink (i + 1) 1 none (ys.drop (i + 1) ++ []))
      ((t.moved move).findLink (i + xs.length + 1) 1 none
        ((ys.drop (i + 1)).map (·.moved move) ++ zs)) :=
    carried_findLink (m := none) (.moved (by simp) t) (forall₂_moved (by simp) _)
      (fun n _ => by omega) Nat.one_pos .none fun _ _ _ _ _ => .free rfl _ _
  rw [List.append_nil] at hcarried
  obtain ⟨_, hok, rfl⟩ := hcarried.of_ok hl
  rw [hdrop]
  exact hok

theorem getElem?_between (xs zs : List Tag) (move : Span → Span) {ys : List Tag}
    (ht : ys[i]? = some t) :
    (xs ++ ys.map (·.moved move) ++ zs)[i + xs.length]? = some (t.moved move) := by
  have hi := (List.getElem?_eq_some_iff.1 ht).1
  rw [List.append_assoc, List.getElem?_append_right (Nat.le_add_left ..), Nat.add_sub_cancel,
    List.getElem?_append_left (by simpa using hi), List.getElem?_map, ht]
  rfl

theorem blockFaults_append_moved {xs ys : List Tag} (hx : blockFaults xs = [])
    (hy : blockFaults ys = []) (move : Span → Span) :
    blockFaults (xs ++ ys.map (·.moved move)) = [] := by
  rw [blockFaults_eq_nil_iff]
  intro i t ht ho
  rcases Nat.lt_or_ge i xs.length with hi | hi
  · rw [List.getElem?_append_left hi] at ht
    obtain ⟨link, hl⟩ := findLink_of_blockFaults_nil hx ht ho
    have hfound := findLink_between [] (ys.map (·.moved move)) id ht hl
    rw [show xs.map (fun t : Tag => t.moved id) = xs from List.map_id xs] at hfound
    exact ⟨_, hfound⟩
  · obtain ⟨j, rfl⟩ := Nat.exists_eq_add_of_le' hi
    rw [List.getElem?_append_right hi, Nat.add_sub_cancel, List.getElem?_map,
      Option.map_eq_some_iff] at ht
    obtain ⟨u, hu, rfl⟩ := ht
    obtain ⟨link, hl⟩ := findLink_of_blockFaults_nil hy hu ho
    have hfound := findLink_between xs [] move hu hl
    rw [List.append_nil] at hfound
    exact ⟨_, hfound⟩

/-- The search among all tags of a list, moved, gives what it gives among the tags. -/
theorem findLink_moved (move : Span → Span) (t : Tag) (i : Nat) (rest : List Tag) :
    (t.moved move).findLink i 1 none (rest.map (·.moved move)) =
      (t.findLink i 1 none rest).mapError (·.moved move) := by
  have hm : ∀ f ∈ some move, f = move := by simp
  have hcarried : Carried (some (BlockFault.moved move)) (fun l l' => l' = l.renamed id)
      (t.findLink i 1 none (rest ++ []))
      ((t.moved move).findLink i 1 none (rest.map (·.moved move) ++ [])) :=
    carried_findLink (.moved hm t) (forall₂_moved hm rest) (fun _ _ => rfl) Nat.one_pos .none
      fun _ _ _ _ _ => .error (f := BlockFault.moved move) rfl (BlockFault.unclosed t.kind t.span)
  rw [List.append_nil, List.append_nil] at hcarried
  refine (hcarried.mono fun l l' h => ?_).eq_mapError
  rw [h]
  obtain ⟨c, _ | d⟩ := l <;> rfl

theorem links_moved (move : Span → Span) (tags : List Tag) : links (tags.map (·.moved move)) =
    (links tags).map (·.map (·.mapError (·.moved move))) := by
  refine List.ext_getElem? fun i => ?_
  rw [getElem?_links, List.getElem?_map, List.getElem?_map, getElem?_links, ← List.map_drop]
  rcases tags[i]? with _ | t
  · rfl
  · simp only [Option.map_some, findLink_moved]
    by_cases ho : t.opensBlock
    · rw [if_pos ho, if_pos (show (t.moved move).opensBlock from ho)]
      rfl
    · rw [if_neg ho, if_neg (show ¬ (t.moved move).opensBlock from ho)]
      rfl

theorem blockFaults_moved (move : Span → Span) (tags : List Tag) :
    blockFaults (tags.map (·.moved move)) = (blockFaults tags).map (·.moved move) := by
  rw [blockFaults, blockFaults, links_moved, List.filterMap_map, List.map_filterMap]
  refine congrArg (List.filterMap · (links tags)) (funext fun found => ?_)
  rcases found with _ | _ | _ <;> rfl

end Tag

/-! ## Linked tags -/

namespace LinkedTag

def moved (move : Span → Span) (t : LinkedTag) : LinkedTag :=
  { t.toTag.moved move with link := t.link }

theorem ofTags_moved (move : Span → Span) (tags : List Tag) :
    ofTags (tags.map (·.moved move)) = (ofTags tags).map (·.moved move) := by
  rw [ofTags, ofTags, Tag.links_moved, List.zipWith_map, List.map_zipWith]
  congr 1
  funext t found
  rcases found with _ | _ | _ <;> rfl

variable {m : Option (Span → Span)} {tags tags' : List Tag} {i : Nat} {u : LinkedTag} {t' : Tag}

theorem copies_ofTags (index : Nat → Nat) (hu : (ofTags tags)[i]? = some u)
    (ht' : tags'[index i]? = some t') (hc : u.toTag.Copies m t') (hf : Tag.blockFaults tags = [])
    (hl : u.opensBlock → ∀ link, u.toTag.findLink (i + 1) 1 none (tags.drop (i + 1)) = .ok link →
      t'.findLink (index i + 1) 1 none (tags'.drop (index i + 1)) = .ok (link.renamed index)) :
    ∃ u', (ofTags tags')[index i]? = some u' ∧ u.Copies m index u' := by
  rw [getElem?_ofTags, Option.map_eq_some_iff] at hu
  obtain ⟨t, ht, rfl⟩ := hu
  rw [getElem?_ofTags, ht']
  refine ⟨_, rfl, hc, ?_⟩
  simp only at hc hl ⊢
  rw [hc.opensBlock]
  split_ifs with ho
  · obtain ⟨link, hlink⟩ := Tag.findLink_of_blockFaults_nil hf ht ho
    rw [hl ho link hlink, hlink]
    rfl
  · rfl

theorem copies_between {move : Span → Span} (hm : ∀ f ∈ m, f = move)
    (hf : Tag.blockFaults tags = []) (hu : (ofTags tags)[i]? = some u) (xs zs : List Tag) :
    ∃ u', (ofTags (xs ++ tags.map (·.moved move) ++ zs))[i + xs.length]? = some u' ∧
      u.Copies m (· + xs.length) u' := by
  have ht := hu
  rw [getElem?_ofTags, Option.map_eq_some_iff] at ht
  obtain ⟨t, ht, rfl⟩ := ht
  exact copies_ofTags (· + xs.length) hu (Tag.getElem?_between xs zs move ht) (.moved hm t) hf
    fun _ link hl => Tag.findLink_between xs zs move ht hl

end LinkedTag

end Stencil
