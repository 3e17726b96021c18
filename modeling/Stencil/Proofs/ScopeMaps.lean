import Mathlib.Data.List.Forall2
import Mathlib.Tactic.Tauto
import Stencil.Proofs.DistinctNames
import Stencil.Proofs.SimilarScopes

/-!
# Binding sets are compared by content

A binding set is kept as two lists in the order of its history, and is taken for two maps, the one
of values and the one of loops, whose children are taken for such maps as well (`Bindings.view`).
Where no name is there twice, at any depth, two binding sets are the same if and only if they are
taken for the same maps (`same_iff_view`), and no rendering tells them apart then
(`result_page_of_view`).
-/

namespace Stencil

namespace Bindings

variable {b c d : Bindings} {n : String}

/-- No variable and no loop is there twice, at any depth. -/
inductive Tidy : Bindings → Prop
  | intro {b : Bindings} (scalars : Named.Distinct b.scalars) (loops : Named.Distinct b.loops)
    (children : ∀ n xs, b.loop? n = some xs → ∀ x ∈ xs, Tidy x) : Tidy b

namespace Tidy

theorem child (h : b.Tidy) {xs : List Bindings} (hxs : b.loop? n = some xs) {x : Bindings}
    (hx : x ∈ xs) : x.Tidy := by
  cases h with
  | intro _ _ children => exact children n xs hxs x hx

theorem empty : (∅ : Bindings).Tidy := .intro List.nodup_nil List.nodup_nil nofun

theorem setOwned (h : b.Tidy) (n : String) (v : Bytes) : (b.setOwned n v).Tidy := by
  cases h with
  | intro scalars loops children => exact .intro (Named.distinct_put n v scalars) loops children

theorem remove (h : b.Tidy) (n : String) : (b.remove n).Tidy := by
  cases h with
  | intro scalars loops children => exact .intro (Named.distinct_erase n scalars) loops children

theorem setLoop (h : b.Tidy) (n : String) {xs : List Bindings} (hxs : ∀ x ∈ xs, x.Tidy) :
    (b.setLoop n xs).Tidy := by
  cases h with
  | intro scalars loops children =>
    refine .intro scalars (Named.distinct_put n xs loops) fun k ys hys => ?_
    rw [loop?_setLoop] at hys
    split_ifs at hys with hk
    · obtain rfl := Option.some.inj hys
      exact hxs
    · exact children k ys hys

theorem addChild (h : b.Tidy) (n : String) {x : Bindings} (hx : x.Tidy) :
    (b.addChild n x).Tidy := by
  refine h.setLoop n fun y hy => ?_
  rcases List.mem_append.1 hy with hy | hy
  · rcases hn : b.loop? n with _ | xs <;> rw [hn] at hy
    · cases hy
    · exact h.child hn hy
  · rwa [List.mem_singleton.1 hy]

end Tidy

/-! ## Comparing binding sets -/

theorem sameChildren_iff : ∀ {xs ys : List Bindings},
    sameChildren xs ys ↔ List.Forall₂ (fun x y => x == y) xs ys
  | [], [] => by simp [sameChildren]
  | [], _ :: _ => by simp [sameChildren]
  | _ :: _, [] => by simp [sameChildren]
  | x :: xs, y :: ys => by
    rw [sameChildren, Bool.and_eq_true, List.forall₂_cons, sameChildren_iff]
    rfl

theorem sameLoops_iff (c : Bindings) : ∀ ls : List (String × List Bindings),
    sameLoops ls c ↔ ∀ n xs, (n, xs) ∈ ls →
      ∃ ys, c.loop? n = some ys ∧ List.Forall₂ (fun x y => x == y) xs ys
  | [] => by simp [sameLoops]
  | (k, xs) :: rest => by
    have hhead : sameLoops [(k, xs)] c = true ↔
        ∃ ys, c.loop? k = some ys ∧ List.Forall₂ (fun x y => x == y) xs ys := by
      rw [sameLoops, sameLoops, Bool.and_true]
      rcases c.loop? k with _ | ys
      · simp
      · simp [sameChildren_iff]
    have hcons : sameLoops ((k, xs) :: rest) c = (sameLoops [(k, xs)] c && sameLoops rest c) := by
      simp only [sameLoops, Bool.and_true]
    rw [hcons, Bool.and_eq_true, hhead, sameLoops_iff c rest]
    simp only [List.mem_cons, Prod.mk.injEq]
    constructor
    · rintro ⟨hk, hrest⟩ n ys (⟨rfl, rfl⟩ | hmem)
      · exact hk
      · exact hrest n ys hmem
    · exact fun h => ⟨h k xs (.inl ⟨rfl, rfl⟩), fun n ys hmem => h n ys (.inr hmem)⟩

/-- Binding sets are the same if and only if their names give the same. -/
theorem same_iff (h : b.Tidy) (h' : c.Tidy) : b == c ↔ ∀ n, b.get? n = c.get? n ∧
    Option.Rel (List.Forall₂ fun x y => x == y) (b.loop? n) (c.loop? n) := by
  obtain ⟨hscalars, hloops, -⟩ := h
  obtain ⟨hscalars', hloops', -⟩ := h'
  have hvalues := Named.rel_get?_iff (R := Eq) hscalars hscalars'
  have hchildren := Named.rel_get?_iff (R := List.Forall₂ fun x y : Bindings => x == y)
    hloops hloops'
  have heq : ∀ x y : Option Bytes, Option.Rel Eq x y ↔ x = y := by
    intro x y
    rcases x with _ | v <;> rcases y with _ | w <;>
      simp [Option.rel_some_some, Option.rel_none_none]
  simp only [heq] at hvalues
  rw [forall_and]
  refine Iff.trans ?_ (and_congr hvalues hchildren)
  obtain ⟨vs, ls⟩ := b
  show same ⟨vs, ls⟩ c = true ↔ _
  simp only [same, Bool.and_eq_true, beq_iff_eq, List.all_eq_true, sameLoops_iff, Prod.forall,
    exists_eq_right', get?, loop?]
  tauto

end Bindings

theorem forall₂_iff_map_eq {α β : Type} {R : α → α → Prop} {f : α → β} : ∀ {xs ys : List α},
    (∀ x ∈ xs, ∀ y ∈ ys, R x y ↔ f x = f y) → (List.Forall₂ R xs ys ↔ xs.map f = ys.map f)
  | [], [], _ => by simp
  | [], _ :: _, _ => by simp
  | _ :: _, [], _ => by simp
  | x :: xs, y :: ys, h => by
    have hx := h x (by simp) y (by simp)
    have ih : List.Forall₂ R xs ys ↔ xs.map f = ys.map f := forall₂_iff_map_eq fun a ha b hb =>
      h a (List.mem_cons_of_mem x ha) b (List.mem_cons_of_mem y hb)
    rw [List.forall₂_cons, hx, ih, List.map_cons, List.map_cons, List.cons.injEq]

/-- What a binding set is taken for: a map of values, and a map of loops whose children are taken
for such maps as well. -/
inductive Scope where
  | of (values : String → Option Bytes) (loops : String → Option (List Scope))

namespace Scope

/-- The value of a variable. -/
def value? : Scope → String → Option Bytes
  | .of values _ => values

/-- The children of a loop. -/
def loop? : Scope → String → Option (List Scope)
  | .of _ loops => loops

theorem of_eta : ∀ s : Scope, .of s.value? s.loop? = s
  | .of _ _ => rfl

end Scope

namespace Bindings

mutual

/-- What the binding set is taken for. -/
def view : Bindings → Scope
  | ⟨vs, ls⟩ => .of (fun n => Named.get? n vs) (viewLoops ls)

/-- What the loops are taken for, by name. -/
def viewLoops : List (String × List Bindings) → String → Option (List Scope)
  | [], _ => none
  | (k, xs) :: rest, n => if n = k then some (viewChildren xs) else viewLoops rest n

/-- What the children of a loop are taken for. -/
def viewChildren : List Bindings → List Scope
  | [] => []
  | x :: xs => view x :: viewChildren xs

end

variable {b c d : Bindings} {n : String}

theorem viewChildren_eq : ∀ xs : List Bindings, viewChildren xs = xs.map view
  | [] => rfl
  | x :: xs => by rw [viewChildren, viewChildren_eq xs, List.map_cons]

theorem viewLoops_eq (n : String) : ∀ ls : List (String × List Bindings),
    viewLoops ls n = (Named.get? n ls).map (·.map view)
  | [] => rfl
  | (k, xs) :: rest => by
    rw [viewLoops, Named.get?_cons, viewLoops_eq n rest, viewChildren_eq]
    split_ifs <;> rfl

theorem view_eq (b : Bindings) :
    b.view = .of b.get? fun n => (b.loop? n).map (·.map view) := by
  obtain ⟨vs, ls⟩ := b
  rw [view]
  exact congrArg (Scope.of _) (funext fun n => viewLoops_eq n ls)

theorem view_eq_iff : b.view = c.view ↔ ∀ n, b.get? n = c.get? n ∧
    (b.loop? n).map (·.map view) = (c.loop? n).map (·.map view) := by
  rw [view_eq, view_eq c, Scope.of.injEq, funext_iff, funext_iff, forall_and]

/-- Binding sets are the same if and only if they are taken for the same maps. -/
theorem same_iff_view (h : b.Tidy) (h' : c.Tidy) : b == c ↔ b.view = c.view := by
  induction h generalizing c with
  | @intro b scalars loops children ih =>
    rw [same_iff (.intro scalars loops children) h', view_eq_iff]
    refine forall_congr' fun n => and_congr_right fun _ => ?_
    have hchild := ih n
    have hchild' := fun xs hxs x (hx : x ∈ xs) => h'.child (n := n) hxs hx
    rcases hb : b.loop? n with _ | xs <;> rcases hc : c.loop? n with _ | ys
    · simp [Option.rel_none_none]
    · simp only [Option.map_none, Option.map_some, reduceCtorEq, iff_false]
      exact nofun
    · simp only [Option.map_none, Option.map_some, reduceCtorEq, iff_false]
      exact nofun
    · rw [Option.rel_some_some, Option.map_some, Option.map_some, Option.some.injEq]
      exact forall₂_iff_map_eq fun x hx y hy => hchild xs hb x hx (hchild' ys hc y hy)

theorem map_view_children (b : Bindings) (n : String) :
    (b.children n).map view = ((b.loop? n).map (·.map view)).getD [] := by
  unfold children
  rcases b.loop? n with _ | xs <;> rfl

/-- What is taken for the same agrees on whatever is asked for. -/
theorem similar_of_view (n : Asked) (h : b.Tidy) (hview : b.view = c.view) : Similar n b c := by
  induction h generalizing c with
  | @intro b scalars loops children ih =>
    rw [view_eq_iff] at hview
    have hmap : ∀ x, (b.children x).map view = (c.children x).map view := fun x => by
      rw [map_view_children, map_view_children, (hview x).2]
    have hlen : ∀ x, (b.children x).length = (c.children x).length := fun x => by
      simpa using congrArg List.length (hmap x)
    refine .intro (fun x _ => (hview x).1) (fun x _ => ?_) (fun x _ => hlen x) ?_
    · have hempty : (b.children x).isEmpty = (c.children x).isEmpty := by
        rw [Bool.eq_iff_iff, List.isEmpty_iff_length_eq_zero, List.isEmpty_iff_length_eq_zero,
          hlen x]
      rw [Bindings.children, Bindings.children] at hempty
      rw [condition_eq, condition_eq, (hview x).1, hempty]
    · intro x _ i y z hy hz
      have hyz := congrArg (·[i]?) (hmap x)
      simp only [List.getElem?_map, hy, hz, Option.map_some, Option.some.injEq] at hyz
      rcases hb : b.loop? x with _ | xs <;> rw [Bindings.children, hb] at hy
      · cases hy
      · exact ih x xs hb y (List.mem_of_getElem? hy) hyz

end Bindings

/-- No rendering looks at more than what a binding set is taken for. -/
theorem Renderer.result_page_of_view {b c : Bindings} (h : b.Tidy) (hview : b.view = c.view)
    (r : Renderer) (files : Files) (p : Page) :
    (r.page files p b).result = (r.page files p c).result := by
  have hsimilar := Bindings.similar_of_view (Asked.of files p.source) h hview
  rcases Reading.shares_page r files p hsimilar.shape with ⟨e, hb, hc⟩ | ⟨ps, hps, hb, hc⟩
  · rw [hb, hc]
  · rw [hb, hc, hsimilar.filled_eq hps]

end Stencil
