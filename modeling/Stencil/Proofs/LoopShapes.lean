import Mathlib.Data.List.Forall2
import Stencil.Data
import Stencil.Proofs.DistinctNames

/-!
# Tables of the shape of loops

A table becomes a binding set if neither it nor a table among the items of its arrays, at any depth,
has a table as a value or an item that is no table. Its scalars are the variables then, and its
arrays the loops. Of a table of any other shape the first offence is told, in the order of keys and
items, with the keys that lead to it (`ofTable_of_shape`).
-/

namespace Stencil

namespace Toml.Table

variable {t u rest : Table} {key k text : String} {v w : Value} {items : List Value} {i j : Nat}

/-! ### Tables that are reached -/

/-- The tables that are reached from a table: itself, and those reached from an item of one of its
arrays. -/
inductive Reaches : Table → Table → Prop
  | self (t : Table) : Reaches t t
  | item {t u w : Table} {key : String} {items : List Value} : (key, .array items) ∈ t →
    .table u ∈ items → Reaches u w → Reaches t w

/-- The keys of all tables that are reached are in the order of their octets, each of them once. -/
def Ordered (t : Table) : Prop :=
  ∀ u, Reaches t u → u.Pairwise fun d e => Bytes.ofString d.1 < Bytes.ofString e.1

/-- No table that is reached has a table as a value, or an item of an array that is no table. -/
def LoopShaped (t : Table) : Prop :=
  ∀ u, Reaches t u → ∀ key v, (key, v) ∈ u → (∀ w, v ≠ .table w) ∧
    ∀ items, v = .array items → ∀ item ∈ items, ∃ w, item = .table w

theorem Ordered.keys (h : t.Ordered) :
    t.Pairwise fun d e => Bytes.ofString d.1 < Bytes.ofString e.1 := h t (.self t)

theorem Ordered.item (h : t.Ordered) (hmem : (key, .array items) ∈ t) (hu : .table u ∈ items) :
    u.Ordered := fun w hw => h w (.item hmem hu hw)

theorem Ordered.tail {e : String × Value} (h : Ordered (e :: rest)) : Ordered rest := by
  rintro u (_ | ⟨hmem, hu, hw⟩)
  · exact (List.pairwise_cons.1 h.keys).2
  · exact h u (.item (List.mem_cons_of_mem e hmem) hu hw)

theorem ordered_nil : Ordered [] := by
  rintro u (_ | ⟨hmem, -, -⟩)
  · exact .nil
  · cases hmem

theorem ordered_cons : Ordered ((key, v) :: rest) ↔
    (∀ e ∈ rest, Bytes.ofString key < Bytes.ofString e.1) ∧
      (∀ items, v = .array items → ∀ u, .table u ∈ items → Ordered u) ∧ Ordered rest := by
  refine ⟨fun h => ⟨(List.pairwise_cons.1 h.keys).1, ?_, h.tail⟩, fun ⟨hkeys, hitems, hrest⟩ => ?_⟩
  · rintro items rfl u hu
    exact h.item List.mem_cons_self hu
  · rintro u (_ | ⟨hmem, hu, hw⟩)
    · exact List.pairwise_cons.2 ⟨hkeys, hrest.keys⟩
    · rcases List.mem_cons.1 hmem with heq | hmem
      · exact hitems _ (Prod.mk.inj heq).2.symm _ hu u hw
      · exact hrest u (.item hmem hu hw)

theorem Ordered.distinct (h : t.Ordered) : Named.Distinct t := by
  refine List.pairwise_map.2 (h.keys.imp fun hlt heq => ?_)
  rw [heq] at hlt
  exact List.lt_irrefl _ hlt

/-! ### Places -/

/-- Where an offence is: the arrays that lead to it, by their keys, with the item that each is
entered at, and last the key that offends, with the item that does. -/
abbrev Place := List (String × Nat)

namespace Place

/-- One place is come to before the other one: keys are in the order of their octets, and the items
of an array in their own order. -/
inductive Before : Place → Place → Prop
  | key {k l : String} {i j : Nat} {p q : Place} : Bytes.ofString k < Bytes.ofString l →
    Before ((k, i) :: p) ((l, j) :: q)
  | item {k : String} {i j : Nat} {p q : Place} : i < j → Before ((k, i) :: p) ((k, j) :: q)
  | inside {s : String × Nat} {p q : Place} : Before p q → Before (s :: p) (s :: q)

/-- The keys of the arrays that lead to the place, as they are told in front of a message. -/
def trail (p : Place) : String := String.join (p.dropLast.map (·.1 ++ ": "))

variable {p q : Place}

theorem Before.asymm (h : p.Before q) : ¬ q.Before p := by
  induction h with
  | key hkey =>
    rintro (h | h | h)
    · exact List.lt_asymm hkey h
    · exact List.lt_irrefl _ hkey
    · exact List.lt_irrefl _ hkey
  | item hitem =>
    rintro (h | h | h)
    · exact List.lt_irrefl _ h
    · exact Nat.lt_asymm hitem h
    · exact Nat.lt_irrefl _ hitem
  | inside hin ih =>
    rintro (h | h | h)
    · exact List.lt_irrefl _ h
    · exact Nat.lt_irrefl _ h
    · exact ih h

theorem trail_singleton (s : String × Nat) : trail [s] = "" := rfl

theorem trail_cons (s : String × Nat) (h : p ≠ []) : trail (s :: p) = s.1 ++ ": " ++ p.trail := by
  rw [trail, List.dropLast_cons_of_ne_nil h, List.map_cons, String.join_cons]
  rfl

theorem trail_item (key : String) (i j : Nat) (p : Place) :
    trail ((key, i) :: p) = trail ((key, j) :: p) := by
  rcases p with _ | ⟨s, p⟩
  · rfl
  · rw [trail_cons _ (List.cons_ne_nil s p), trail_cons _ (List.cons_ne_nil s p)]

end Place

/-! ### Offences -/

/-- At this place there is a table as a value, or an item of an array that is no table, with what is
said of it. A table as a value counts as the item 0. -/
inductive Offends : Table → Place → String → Prop
  | tableValue {t w : Table} {key : String} : (key, .table w) ∈ t →
    Offends t [(key, 0)] s!"'{key}': tables are only allowed as loop items ([[{key}]])"
  | looseItem {t : Table} {key : String} {items : List Value} {i : Nat} {v : Value} :
    (key, .array items) ∈ t → items[i]? = some v → (∀ w, v ≠ .table w) →
    Offends t [(key, i)] s!"'{key}': loop items must be tables, found {v.typeName}"
  | within {t u : Table} {key text : String} {items : List Value} {i : Nat} {p : Place} :
    (key, .array items) ∈ t → items[i]? = some (.table u) → Offends u p text →
    Offends t ((key, i) :: p) text

/-- The offence is the first one. -/
def First (t : Table) (p : Place) (text : String) : Prop :=
  t.Offends p text ∧ ∀ q text', t.Offends q text' → q = p ∨ p.Before q

variable {p q : Place} {text' : String} {e : String × Value}

theorem Offends.exists_key (h : t.Offends p text) :
    ∃ e ∈ t, ∃ i q, p = (e.1, i) :: q := by
  rcases h with h | ⟨h, -, -⟩ | ⟨h, -, -⟩ <;> exact ⟨_, h, _, _, rfl⟩

theorem Offends.ne_nil (h : t.Offends p text) : p ≠ [] := by
  cases h <;> simp

theorem offends_nil : ¬ Offends [] p text := by
  rintro (h | h | h) <;> cases h

/-- An offence is in the first entry or in the ones behind it. -/
theorem offends_cons : Offends (e :: rest) p text ↔ Offends [e] p text ∨ Offends rest p text := by
  constructor
  · rintro (h | ⟨h, hi, hv⟩ | ⟨h, hi, hu⟩) <;> rcases List.mem_cons.1 h with rfl | h
    · exact .inl (.tableValue (List.mem_singleton.2 rfl))
    · exact .inr (.tableValue h)
    · exact .inl (.looseItem (List.mem_singleton.2 rfl) hi hv)
    · exact .inr (.looseItem h hi hv)
    · exact .inl (.within (List.mem_singleton.2 rfl) hi hu)
    · exact .inr (.within h hi hu)
  · have mono : ∀ {t t' : Table}, t ⊆ t' → Offends t p text → Offends t' p text := by
      rintro t t' hsub (h | ⟨h, hi, hv⟩ | ⟨h, hi, hu⟩)
      · exact .tableValue (hsub h)
      · exact .looseItem (hsub h) hi hv
      · exact .within (hsub h) hi hu
    rintro (h | h)
    · exact mono (by simp) h
    · exact mono (List.subset_cons_self e rest) h

theorem LoopShaped.item (h : t.LoopShaped) (hmem : (key, .array items) ∈ t)
    (hu : .table u ∈ items) : u.LoopShaped := fun w hw => h w (.item hmem hu hw)

theorem LoopShaped.not_offends (hshape : t.LoopShaped) : ¬ t.Offends p text := by
  intro h
  induction h with
  | tableValue hmem => exact (hshape _ (.self _) _ _ hmem).1 _ rfl
  | looseItem hmem hi hv =>
    obtain ⟨w, hw⟩ := (hshape _ (.self _) _ _ hmem).2 _ rfl _ (List.mem_of_getElem? hi)
    exact hv w hw
  | within hmem hi _ ih => exact ih (hshape.item hmem (List.mem_of_getElem? hi))

theorem loopShaped_of_not_offends (h : ∀ p text, ¬ t.Offends p text) : t.LoopShaped := by
  intro u hu
  induction hu with
  | self t =>
    intro key v hmem
    refine ⟨?_, ?_⟩
    · rintro w rfl
      exact h _ _ (.tableValue hmem)
    · rintro items rfl item hitem
      obtain ⟨i, hi⟩ := List.getElem?_of_mem hitem
      by_contra hloose
      exact h _ _ (.looseItem hmem hi (not_exists.1 hloose))
  | item hmem hu _ ih =>
    obtain ⟨i, hi⟩ := List.getElem?_of_mem hu
    exact ih fun p text hp => h _ _ (.within hmem hi hp)

/-- What is said of an item of an array, and the place of it as seen from the item. -/
inductive ItemOffends (key : String) : Value → Place → String → Prop
  | loose {v : Value} : (∀ w, v ≠ .table w) →
    ItemOffends key v [] s!"'{key}': loop items must be tables, found {v.typeName}"
  | within {u : Table} {p : Place} {text : String} : Offends u p text →
    ItemOffends key (.table u) p text

theorem offends_array : Offends [(key, .array items)] p text ↔
    ∃ i v q, items[i]? = some v ∧ p = (key, i) :: q ∧ ItemOffends key v q text := by
  constructor
  · rintro (hmem | ⟨hmem, hi, hv⟩ | ⟨hmem, hi, hu⟩) <;>
      obtain ⟨rfl, heq⟩ := Prod.mk.inj (List.mem_singleton.1 hmem)
    · cases heq
    · obtain rfl := Value.array.inj heq
      exact ⟨_, _, _, hi, rfl, .loose hv⟩
    · obtain rfl := Value.array.inj heq
      exact ⟨_, _, _, hi, rfl, .within hu⟩
  · rintro ⟨i, v, q, hi, rfl, hv | hu⟩
    · exact .looseItem (List.mem_singleton.2 rfl) hi hv
    · exact .within (List.mem_singleton.2 rfl) hi hu

theorem offends_array_cons : Offends [(key, .array (v :: items))] p text ↔
    (∃ q, p = (key, 0) :: q ∧ ItemOffends key v q text) ∨
      ∃ i q, p = (key, i + 1) :: q ∧ Offends [(key, .array items)] ((key, i) :: q) text := by
  simp only [offends_array]
  constructor
  · rintro ⟨i, w, q, hi, rfl, h⟩
    cases i with
    | zero =>
      obtain rfl := Option.some.inj hi
      exact .inl ⟨q, rfl, h⟩
    | succ i => exact .inr ⟨i, q, rfl, i, w, q, hi, rfl, h⟩
  · rintro (⟨q, rfl, h⟩ | ⟨i, q, rfl, j, w, r, hj, heq, h⟩)
    · exact ⟨0, v, q, rfl, rfl, h⟩
    · obtain ⟨hstep, rfl⟩ := List.cons.inj heq
      obtain ⟨-, rfl⟩ := Prod.mk.inj hstep
      exact ⟨i + 1, w, q, hj, rfl, h⟩

theorem not_offends_scalar (ha : ∀ items, v ≠ .array items) (ht : ∀ w, v ≠ .table w) :
    ¬ Offends [(key, v)] p text := by
  rintro (hmem | ⟨hmem, -, -⟩ | ⟨hmem, -, -⟩) <;>
    obtain ⟨-, rfl⟩ := Prod.mk.inj (List.mem_singleton.1 hmem)
  · exact ht _ rfl
  · exact ha _ rfl
  · exact ha _ rfl

theorem first_table (key : String) (w : Table) : First [(key, .table w)] [(key, 0)]
    s!"'{key}': tables are only allowed as loop items ([[{key}]])" := by
  refine ⟨.tableValue (List.mem_singleton.2 rfl), ?_⟩
  rintro q text' (hmem | ⟨hmem, -, -⟩ | ⟨hmem, -, -⟩) <;>
    obtain ⟨rfl, heq⟩ := Prod.mk.inj (List.mem_singleton.1 hmem)
  · exact .inl rfl
  · cases heq
  · cases heq

theorem Ordered.value_unique (ht : t.Ordered) (hv : (key, v) ∈ t) (hw : (key, w) ∈ t) : v = w := by
  rw [Named.mem_iff_get? ht.distinct] at hv hw
  exact Option.some.inj (hv.symm.trans hw)

/-- A place has one offence at most. -/
theorem Offends.unique (ht : t.Ordered) (h : t.Offends p text) (h' : t.Offends p text') :
    text = text' := by
  induction h generalizing text' with
  | tableValue hmem =>
    rcases h' with _ | ⟨hmem', -, -⟩ | ⟨-, -, hu⟩
    · rfl
    · cases ht.value_unique hmem hmem'
    · exact absurd rfl hu.ne_nil
  | looseItem hmem hi hv =>
    rcases h' with hmem' | ⟨hmem', hi', -⟩ | ⟨-, -, hu⟩
    · cases ht.value_unique hmem hmem'
    · obtain rfl := Value.array.inj (ht.value_unique hmem hmem')
      rw [Option.some.inj (hi.symm.trans hi')]
    · exact absurd rfl hu.ne_nil
  | within hmem hi hu ih =>
    rcases h' with _ | _ | ⟨hmem', hi', hu'⟩
    · exact absurd rfl hu.ne_nil
    · exact absurd rfl hu.ne_nil
    · obtain rfl := Value.array.inj (ht.value_unique hmem hmem')
      obtain rfl := Value.table.inj (Option.some.inj (hi.symm.trans hi'))
      exact ih (ht.item hmem (List.mem_of_getElem? hi)) hu'

theorem First.unique (ht : t.Ordered) (h : t.First p text) (h' : t.First q text') :
    p = q ∧ text = text' := by
  have hpq : p = q := by
    rcases h.2 q text' h'.1 with rfl | hbefore
    · rfl
    · exact ((h'.2 p text h.1).resolve_right hbefore.asymm)
  subst hpq
  exact ⟨rfl, h.1.unique ht h'.1⟩

theorem first_cons_left (ht : Ordered (e :: rest)) (h : First [e] p text) :
    First (e :: rest) p text := by
  refine ⟨offends_cons.2 (.inl h.1), fun q text' hq => ?_⟩
  rcases offends_cons.1 hq with hq | hq
  · exact h.2 q text' hq
  · obtain ⟨d, hd, i, p, rfl⟩ := h.1.exists_key
    obtain ⟨f, hf, j, q, rfl⟩ := hq.exists_key
    obtain rfl := List.mem_singleton.1 hd
    exact .inr (.key ((List.pairwise_cons.1 ht.keys).1 f hf))

theorem first_cons_right (he : ∀ p text, ¬ Offends [e] p text) (h : First rest p text) :
    First (e :: rest) p text := by
  refine ⟨offends_cons.2 (.inr h.1), fun q text' hq => ?_⟩
  exact h.2 q text' ((offends_cons.1 hq).resolve_left (he q text'))

theorem first_item (hv : ItemOffends key v p text)
    (hfirst : ∀ q text', ItemOffends key v q text' → q = p ∨ p.Before q) (items : List Value) :
    First [(key, .array (v :: items))] ((key, 0) :: p) text := by
  refine ⟨offends_array_cons.2 (.inl ⟨p, rfl, hv⟩), fun q text' hq => ?_⟩
  rcases offends_array_cons.1 hq with ⟨r, rfl, hr⟩ | ⟨i, r, rfl, -⟩
  · rcases hfirst r text' hr with rfl | hbefore
    · exact .inl rfl
    · exact .inr (.inside hbefore)
  · exact .inr (.item (Nat.succ_pos i))

theorem first_skip (hv : ∀ q text', ¬ ItemOffends key v q text')
    (h : First [(key, .array items)] ((key, i) :: p) text) :
    First [(key, .array (v :: items))] ((key, i + 1) :: p) text := by
  refine ⟨offends_array_cons.2 (.inr ⟨i, p, rfl, h.1⟩), fun q text' hq => ?_⟩
  rcases offends_array_cons.1 hq with ⟨r, -, hr⟩ | ⟨j, r, rfl, hr⟩
  · exact absurd hr (hv r text')
  · rcases h.2 _ text' hr with heq | hbefore
    · obtain ⟨hstep, rfl⟩ := List.cons.inj heq
      obtain ⟨-, rfl⟩ := Prod.mk.inj hstep
      exact .inl rfl
    · refine .inr ?_
      cases hbefore with
      | key h => exact .key h
      | item h => exact .item (Nat.succ_lt_succ h)
      | inside h => exact .inside h

end Toml.Table

/-- The octets that a scalar becomes: a string as it is, an integer in decimal, `1` for true and `0`
for false, and a number or a point in time as it is written. -/
inductive Toml.Value.Shows : Toml.Value → Bytes → Prop
  | string (s : String) : Shows (.string s) (.ofString s)
  | integer (n : Int) : Shows (.integer n) (.ofString (toString n))
  | yes : Shows (.boolean true) [49]
  | no : Shows (.boolean false) [48]
  | float (x : Binary64) : Shows (.float x) (.ofString x.text)
  | datetime (d : Toml.Datetime) : Shows (.datetime d) (.ofString d.text)

namespace Bindings

open Toml (Table Value)
open Toml.Table

variable {t : Table} {b c : Bindings} {key : String} {items : List Value} {e : ShapeFault}

mutual

/-- A table that becomes a binding set has no offence. -/
theorem not_offends_of_addTable : ∀ {t : Table} {b c : Bindings}, b.addTable t = .ok c →
    ∀ p text, ¬ t.Offends p text
  | [], _, _, _, _, _ => offends_nil
  | (key, v) :: rest, b, c, h, p, text => by
    rw [offends_cons, not_or]
    cases v with
    | array items =>
      simp only [addTable] at h
      rcases hl : loopOf key items with e | children <;> rw [hl] at h
      · cases h
      · exact ⟨not_offends_of_loopOf hl p text, not_offends_of_addTable h p text⟩
    | table entries => simp [addTable] at h
    | _ =>
      simp only [addTable] at h
      exact ⟨not_offends_scalar nofun nofun, not_offends_of_addTable h p text⟩

/-- An array that becomes a loop has no offence. -/
theorem not_offends_of_loopOf : ∀ {items : List Value} {key : String} {children : List Bindings},
    loopOf key items = .ok children → ∀ p text, ¬ Offends [(key, .array items)] p text
  | [], _, _, _, p, text => by simp [offends_array]
  | v :: rest, key, children, h, p, text => by
    rw [offends_array_cons]
    cases v with
    | table u =>
      simp only [loopOf] at h
      rcases hu : addTable ∅ u with e | child <;> rw [hu] at h
      · cases h
      · rcases hl : loopOf key rest with e | others <;> rw [hl] at h
        · cases h
        · rintro (⟨q, -, hloose | hq⟩ | ⟨i, q, -, hq⟩)
          · exact hloose u rfl
          · exact not_offends_of_addTable hu q text hq
          · exact not_offends_of_loopOf hl _ text hq
    | _ => simp [loopOf] at h

end

theorem within_message (key : String) (e : ShapeFault) :
    (ShapeFault.within key e).message = key ++ ": " ++ e.message := rfl

mutual

/-- A table that becomes no binding set has a first offence, which is told. -/
theorem first_of_addTable : ∀ {t : Table} {b : Bindings} {e : ShapeFault}, t.Ordered →
    b.addTable t = .error e → ∃ p text, t.First p text ∧ e.message = p.trail ++ text
  | [], _, _, _, h => by simp [addTable] at h
  | (key, v) :: rest, b, e, ht, h => by
    cases v with
    | array items =>
      simp only [addTable] at h
      rcases hl : loopOf key items with e' | children <;> rw [hl] at h
      · obtain rfl := Except.error.inj h
        obtain ⟨p, text, hfirst, hmessage⟩ :=
          first_of_loopOf (fun u => ht.item List.mem_cons_self) hl
        exact ⟨p, text, first_cons_left ht hfirst, hmessage⟩
      · obtain ⟨p, text, hfirst, hmessage⟩ := first_of_addTable ht.tail h
        exact ⟨p, text, first_cons_right (not_offends_of_loopOf hl) hfirst, hmessage⟩
    | table w =>
      simp only [addTable] at h
      obtain rfl := Except.error.inj h
      refine ⟨_, _, first_cons_left ht (first_table key w), ?_⟩
      rw [Place.trail_singleton, String.empty_append]
      rfl
    | _ =>
      simp only [addTable] at h
      obtain ⟨p, text, hfirst, hmessage⟩ := first_of_addTable ht.tail h
      exact ⟨p, text, first_cons_right (fun _ _ => not_offends_scalar nofun nofun) hfirst, hmessage⟩

/-- An array that becomes no loop has a first offence, which is told. -/
theorem first_of_loopOf : ∀ {items : List Value} {key : String} {e : ShapeFault},
    (∀ u, .table u ∈ items → Ordered u) → loopOf key items = .error e →
      ∃ p text, First [(key, .array items)] p text ∧ e.message = p.trail ++ text
  | [], _, _, _, h => by simp [loopOf] at h
  | v :: rest, key, e, hall, h => by
    cases v with
    | table u =>
      simp only [loopOf] at h
      rcases hu : addTable ∅ u with e' | child <;> rw [hu] at h
      · obtain rfl := Except.error.inj h
        obtain ⟨p, text, hfirst, hmessage⟩ := first_of_addTable (hall u List.mem_cons_self) hu
        refine ⟨_, text, first_item (.within hfirst.1) ?_ rest, ?_⟩
        · rintro q text' (hloose | hq)
          · exact absurd rfl (hloose u)
          · exact hfirst.2 q text' hq
        · rw [within_message, hmessage, Place.trail_cons _ hfirst.1.ne_nil, ← String.append_assoc]
      · rcases hl : loopOf key rest with e' | others <;> rw [hl] at h
        · obtain rfl := Except.error.inj h
          obtain ⟨p, text, hfirst, hmessage⟩ :=
            first_of_loopOf (fun w hw => hall w (List.mem_cons_of_mem _ hw)) hl
          obtain ⟨i, w, q, -, rfl, -⟩ := offends_array.1 hfirst.1
          refine ⟨_, text, first_skip ?_ hfirst, ?_⟩
          · rintro q text' (hloose | hq)
            · exact hloose u rfl
            · exact not_offends_of_addTable hu q text' hq
          · rw [hmessage, Place.trail_item key i (i + 1)]
        · cases h
    | _ =>
      simp only [loopOf] at h
      obtain rfl := Except.error.inj h
      refine ⟨_, _, first_item (.loose (by simp)) ?_ rest, ?_⟩
      · rintro q text' hq
        cases hq
        exact .inl rfl
      · rw [Place.trail_singleton, String.empty_append]
        rfl

end

/-! ### What is bound -/

/-- The octets of the variable that a value becomes. -/
def octets? (v : Value) : Option Bytes := v.scalarText?.map Bytes.ofString

/-- The children of the loop that the value of a key becomes. -/
def children? (key : String) : Value → Option (List Bindings)
  | .array items => (loopOf key items).toOption
  | _ => none

theorem shows_iff (v : Value) (x : Bytes) : v.Shows x ↔ octets? v = some x := by
  constructor
  · rintro (_ | _ | _) <;> rfl
  · cases v with
    | boolean b =>
      intro h
      obtain rfl := Option.some.inj h
      cases b
      · exact .no
      · exact .yes
    | array => intro h; cases h
    | table => intro h; cases h
    | _ =>
      intro h
      obtain rfl := Option.some.inj h
      constructor

/-- What the entry of a key with this value changes: the variable or the loop of the key, and
nothing else. -/
structure Entered (b : Bindings) (key : String) (v : Value) (c : Bindings) : Prop where
  get? : ∀ n, c.get? n = if n = key then (octets? v).or (b.get? n) else b.get? n
  loop? : ∀ n, c.loop? n = if n = key then (children? key v).or (b.loop? n) else b.loop? n
  distinct : Named.Distinct b.scalars ∧ Named.Distinct b.loops →
    Named.Distinct c.scalars ∧ Named.Distinct c.loops

theorem entered_of_addTable {v : Value} {rest : Table} (h : b.addTable ((key, v) :: rest) = .ok c) :
    ∃ d, Entered b key v d ∧ d.addTable rest = .ok c := by
  cases v with
  | array items =>
    simp only [addTable] at h
    rcases hl : loopOf key items with e | children <;> rw [hl] at h
    · cases h
    · refine ⟨b.setLoop key children, ⟨fun n => ?_, fun n => ?_, fun hb => ?_⟩, h⟩
      · simp [octets?, Toml.Value.scalarText?]
      · simp [children?, hl, Except.toOption]
      · exact ⟨hb.1, Named.distinct_put key children hb.2⟩
  | table w => simp [addTable] at h
  | _ =>
    simp only [addTable, set_eq_setOwned] at h
    refine ⟨_, ⟨fun n => ?_, fun n => ?_, fun hb => ?_⟩, h⟩
    · simp [octets?, Toml.Value.scalarText?]
    · simp [children?]
    · exact ⟨Named.distinct_put key _ hb.1, hb.2⟩

theorem lookup_addTable (n : String) : ∀ {t : Table} {b c : Bindings}, Named.Distinct t →
    b.addTable t = .ok c → c.get? n = ((Named.get? n t).bind octets?).or (b.get? n) ∧
      c.loop? n = ((Named.get? n t).bind (children? n)).or (b.loop? n)
  | [], b, c, _, h => by
    simp only [addTable, Except.ok.injEq] at h
    simp [h]
  | (key, v) :: rest, b, c, ht, h => by
    obtain ⟨hkey, hrest⟩ := List.nodup_cons.1 ht
    obtain ⟨d, hd, hc⟩ := entered_of_addTable h
    obtain ⟨hget, hloop⟩ := lookup_addTable n hrest hc
    rw [hget, hloop, hd.get?, hd.loop?, Named.get?_cons]
    by_cases hn : n = key
    · subst hn
      have hnone : Named.get? n rest = none := by
        rw [Option.eq_none_iff_forall_ne_some]
        exact fun w hw => hkey ((Named.mem_names_iff n rest).2 ⟨w, hw⟩)
      simp [hnone]
    · simp [hn]

theorem distinct_empty :
    Named.Distinct (∅ : Bindings).scalars ∧ Named.Distinct (∅ : Bindings).loops :=
  ⟨List.nodup_nil, List.nodup_nil⟩

theorem distinct_addTable : ∀ {t : Table} {b c : Bindings},
    Named.Distinct b.scalars ∧ Named.Distinct b.loops → b.addTable t = .ok c →
      Named.Distinct c.scalars ∧ Named.Distinct c.loops
  | [], b, c, hb, h => by
    simp only [addTable, Except.ok.injEq] at h
    rwa [← h]
  | (key, v) :: rest, b, c, hb, h => by
    obtain ⟨d, hd, hc⟩ := entered_of_addTable h
    exact distinct_addTable (hd.distinct hb) hc

/-- Each item of an array becomes a child of the loop. -/
theorem loopOf_eq_ok_iff : ∀ (items : List Value) (key : String) {children : List Bindings},
    loopOf key items = .ok children ↔
      List.Forall₂ (fun item child => ∃ u, item = .table u ∧ ofTable u = .ok child) items children
  | [], key, children => by simp [loopOf, eq_comm]
  | v :: rest, key, children => by
    rw [List.forall₂_cons_left_iff]
    simp only [← loopOf_eq_ok_iff rest key]
    cases v with
    | table u =>
      simp only [loopOf, ofTable]
      rcases hu : addTable ∅ u with e | child
      · simp [hu]
      · rcases hl : loopOf key rest with e | others <;> simp [hu, Except.map, eq_comm]
    | _ => simp [loopOf]

theorem children?_eq_some_iff {v : Value} {children : List Bindings} :
    children? key v = some children ↔ ∃ items, v = .array items ∧
      List.Forall₂ (fun item child => ∃ u, item = .table u ∧ ofTable u = .ok child)
        items children := by
  cases v with
  | array items =>
    rw [children?]
    rcases hl : loopOf key items with e | others
    · simp [← loopOf_eq_ok_iff items key, hl, Except.toOption]
    · simp [← loopOf_eq_ok_iff items key, hl, Except.toOption]
  | _ => simp [children?]

/-- A table becomes a binding set if and only if no table that is reached from it has a table as a
value or an item that is no table. The variables are its scalars then, and the loops its arrays,
each child being what its item becomes. Otherwise the message is that of the first offence, behind
the keys of the arrays that lead there. -/
theorem ofTable_of_shape {t : Table} (ht : t.Ordered) :
    ((∃ b, ofTable t = .ok b) ↔ t.LoopShaped) ∧
    (∀ b, ofTable t = .ok b → Named.Distinct b.scalars ∧ Named.Distinct b.loops ∧
      (∀ n x, b.get? n = some x ↔ ∃ v, (n, v) ∈ t ∧ v.Shows x) ∧
      ∀ n children, b.loop? n = some children ↔ ∃ items, (n, .array items) ∈ t ∧
        List.Forall₂ (fun item child => ∃ u, item = .table u ∧ ofTable u = .ok child)
          items children) ∧
    ∀ message, (∃ e, ofTable t = .error e ∧ e.message = message) ↔
      ∃ p text, t.First p text ∧ message = p.trail ++ text := by
  refine ⟨⟨?_, fun hshape => ?_⟩, fun b hb => ?_, fun message => ⟨?_, ?_⟩⟩
  · rintro ⟨b, hb⟩
    exact loopShaped_of_not_offends (not_offends_of_addTable hb)
  · rcases hb : ofTable t with e | b
    · obtain ⟨p, text, hfirst, -⟩ := first_of_addTable ht hb
      exact absurd hfirst.1 hshape.not_offends
    · exact ⟨b, rfl⟩
  · obtain ⟨hscalars, hloops⟩ := distinct_addTable distinct_empty hb
    have hlookup := fun n => lookup_addTable n ht.distinct hb
    refine ⟨hscalars, hloops, fun n x => ?_, fun n children => ?_⟩
    · rw [(hlookup n).1, get?_empty, Option.or_none, Option.bind_eq_some_iff]
      simp only [Named.mem_iff_get? ht.distinct, shows_iff]
    · rw [(hlookup n).2, loop?_empty, Option.or_none, Option.bind_eq_some_iff]
      simp only [Named.mem_iff_get? ht.distinct, children?_eq_some_iff]
      constructor
      · rintro ⟨v, hv, items, rfl, hchildren⟩
        exact ⟨items, hv, hchildren⟩
      · rintro ⟨items, hv, hchildren⟩
        exact ⟨_, hv, items, rfl, hchildren⟩
  · rintro ⟨e, he, rfl⟩
    exact first_of_addTable ht he
  · rintro ⟨p, text, hfirst, rfl⟩
    rcases hb : ofTable t with e | b
    · obtain ⟨q, text', hfirst', hmessage⟩ := first_of_addTable ht hb
      obtain ⟨rfl, rfl⟩ := hfirst.unique ht hfirst'
      exact ⟨e, rfl, hmessage⟩
    · exact absurd hfirst.1 (not_offends_of_addTable hb p text)

/-- A table with a nested loop, in whose second entry an item is no table. -/
def journey : Table :=
  [("leg", .array [.table [("stop", .array [.table [("at", .integer 3)]])],
    .table [("far", .boolean true), ("stop", .array [.table [], .integer 4])]]),
   ("to", .table [])]

theorem ordered_journey : Ordered journey := by
  have hleg : Bytes.ofString "leg" < Bytes.ofString "to" := by decide
  have hfar : Bytes.ofString "far" < Bytes.ofString "stop" := by decide
  simp [journey, ordered_cons, ordered_nil, hleg, hfar]

theorem ofTable_of_shape_journey : journey.Ordered ∧ ∃ p text, journey.First p text ∧
    p.trail ++ text = "leg: 'stop': loop items must be tables, found integer" := by
  have hfault : ofTable journey = .error (.within "leg" (.looseItem "stop" "integer")) := by
    simp [ofTable, journey, addTable, loopOf, Toml.Value.typeName, Except.map]
  have hmessage : (ShapeFault.within "leg" (.looseItem "stop" "integer")).message =
      "leg: 'stop': loop items must be tables, found integer" := by cbv
  obtain ⟨p, text, hfirst, heq⟩ :=
    ((ofTable_of_shape ordered_journey).2.2 _).1 ⟨_, hfault, hmessage⟩
  exact ⟨ordered_journey, p, text, hfirst, heq.symm⟩

end Bindings

end Stencil
