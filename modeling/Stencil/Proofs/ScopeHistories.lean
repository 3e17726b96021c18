import Mathlib.Logic.Function.Basic
import Stencil.Proofs.ScopeMaps

/-!
# Histories of binding sets

A binding set is made by calls on it and on the children of its loops. A call does to the maps that
the binding set is taken for what it says: it replaces the value of one variable or the children of
one loop (`view_onBindings`). So calls in different places can be made in either order, what is
overwritten leaves no trace, and as names stay distinct at every depth (`Built.tidy`), binding sets
are compared by what their names give, whatever their histories (`built_behave_as_maps`).
-/

namespace Stencil

/-- A call on a binding set. -/
inductive Edit where
  /-- A variable gets a value that is copied. -/
  | set (name : String) (value : Bytes)
  /-- A variable gets a value that is taken over. -/
  | setOwned (name : String) (value : Bytes)
  | setText (name text : String)
  | remove (name : String)
  | addLoop (name : String)
  /-- A loop is replaced. -/
  | setLoop (name : String) (children : List Bindings)
  | addChild (name : String) (child : Bindings)
  /-- An empty child is added. -/
  | pushNew (name : String)
  /-- The call is made on a child of a loop, if there is one of the index. -/
  | inside (name : String) (i : Nat) (e : Edit)

namespace Edit

open Function (update)
open Bindings (view)

/-- What a binding set answers to the call, which is the value that is taken away, and the binding
set afterwards. -/
def onBindings : Edit → Bindings → Option Bytes × Bindings
  | .set n v, b => (none, b.set n v)
  | .setOwned n v, b => (none, b.setOwned n v)
  | .setText n text, b => (none, b.setText n text)
  | .remove n, b => b.take n
  | .addLoop n, b => (none, b.addLoop n)
  | .setLoop n xs, b => (none, b.setLoop n xs)
  | .addChild n x, b => (none, b.addChild n x)
  | .pushNew n, b => (none, b.addChild n ∅)
  | .inside n i e, b =>
    match b.loop? n with
    | none => (none, b)
    | some xs => (xs[i]?.bind fun x => (e.onBindings x).1,
        b.setLoop n (xs.modify i fun x => (e.onBindings x).2))

/-- The same on maps: the value of one variable, or one loop, is replaced. -/
def onScope : Edit → Scope → Option Bytes × Scope
  | .set n v, s | .setOwned n v, s => (none, .of (update s.value? n (some v)) s.loop?)
  | .setText n text, s => (none, .of (update s.value? n (some (.ofString text))) s.loop?)
  | .remove n, s => (s.value? n, .of (update s.value? n none) s.loop?)
  | .addLoop n, s => (none, .of s.value? (update s.loop? n ((s.loop? n).or (some []))))
  | .setLoop n xs, s => (none, .of s.value? (update s.loop? n (some (xs.map view))))
  | .addChild n x, s =>
    (none, .of s.value? (update s.loop? n (some ((s.loop? n).getD [] ++ [x.view]))))
  | .pushNew n, s =>
    (none, .of s.value? (update s.loop? n (some ((s.loop? n).getD [] ++ [view ∅]))))
  | .inside n i e, s => (((s.loop? n).bind (·[i]?)).bind fun x => (e.onScope x).1,
      .of s.value? (update s.loop? n ((s.loop? n).map (·.modify i fun x => (e.onScope x).2))))

/-- The binding set after the call. -/
def after (e : Edit) (b : Bindings) : Bindings := (e.onBindings b).2

/-- The binding sets that the call brings in. -/
def given : Edit → List Bindings
  | .setLoop _ xs => xs
  | .addChild _ x => [x]
  | .inside _ _ e => e.given
  | _ => []

/-- The variable, or else the loop, that the call is about. -/
def place : Edit → String ⊕ String
  | .set n _ | .setOwned n _ | .setText n _ | .remove n => .inl n
  | .addLoop n | .setLoop n _ | .addChild n _ | .pushNew n | .inside n _ _ => .inr n

/-- Whether nothing is left of what was in the place of the call. -/
def Overwrites : Edit → Prop
  | .set .. | .setOwned .. | .setText .. | .remove _ | .setLoop .. => True
  | _ => False

variable {b c : Bindings} {s : Scope} {e f : Edit}

/-- A value is set alike, be it copied or taken over. -/
theorem onBindings_set (n : String) (v : Bytes) (b : Bindings) :
    (set n v).onBindings b = (setOwned n v).onBindings b :=
  Prod.ext rfl (b.set_eq_setOwned n v)

theorem get?_setOwned_eq (b : Bindings) (n : String) (v : Bytes) :
    (b.setOwned n v).get? = update b.get? n (some v) :=
  funext fun k => by simp [update]

theorem get?_remove_eq (b : Bindings) (n : String) :
    (b.remove n).get? = update b.get? n none :=
  funext fun k => (Named.get?_erase k n b.scalars).trans (by simp [update, Bindings.get?])

theorem loop?_setLoop_eq (b : Bindings) (n : String) (xs : List Bindings) :
    (b.setLoop n xs).loop? = update b.loop? n (some xs) :=
  funext fun k => by simp [update]

theorem view_of_value {n : String} {w : Option Bytes} (hget : c.get? = update b.get? n w)
    (hloop : c.loop? = b.loop?) : c.view = .of (update b.view.value? n w) b.view.loop? := by
  rw [Bindings.view_eq, Bindings.view_eq b, hget, hloop]
  rfl

theorem view_of_loop {n : String} {w : Option (List Bindings)} {w' : Option (List Scope)}
    (hget : c.get? = b.get?) (hloop : c.loop? = update b.loop? n w) (hw : w.map (·.map view) = w') :
    c.view = .of b.view.value? (update b.view.loop? n w') := by
  rw [Bindings.view_eq, Bindings.view_eq b, hget, hloop]
  refine congrArg (Scope.of b.get?) (funext fun k => ?_)
  by_cases hk : k = n
  · subst hk
    simp [hw]
  · simp [hk, Scope.loop?]

theorem loop?_view (b : Bindings) (n : String) : b.view.loop? n = (b.loop? n).map (·.map view) := by
  rw [Bindings.view_eq]
  rfl

theorem value?_view (b : Bindings) (n : String) : b.view.value? n = b.get? n := by
  rw [Bindings.view_eq]
  rfl

theorem loop?_addLoop_eq (b : Bindings) (n : String) :
    (b.addLoop n).loop? = update b.loop? n ((b.loop? n).or (some [])) := by
  unfold Bindings.addLoop
  rcases hn : b.loop? n with _ | xs
  · exact loop?_setLoop_eq b n []
  · exact (Function.update_eq_self_iff.2 hn.symm).symm

theorem get?_addLoop_eq (b : Bindings) (n : String) : (b.addLoop n).get? = b.get? := by
  unfold Bindings.addLoop
  rcases b.loop? n with _ | xs <;> rfl

theorem view_addChild (b : Bindings) (n : String) (x : Bindings) : (b.addChild n x).view =
    .of b.view.value? (update b.view.loop? n (some ((b.view.loop? n).getD [] ++ [x.view]))) := by
  refine view_of_loop rfl (loop?_setLoop_eq b n _) ?_
  rw [loop?_view]
  rcases b.loop? n with _ | xs <;> simp

/-- A call does to a binding set what it does to the maps that this is taken for. -/
theorem view_onBindings (e : Edit) (b : Bindings) :
    (e.onBindings b).map id view = e.onScope b.view := by
  induction e generalizing b with
  | set n v =>
    rw [onBindings_set]
    exact Prod.ext rfl (view_of_value (get?_setOwned_eq b n v) rfl)
  | setOwned n v => exact Prod.ext rfl (view_of_value (get?_setOwned_eq b n v) rfl)
  | setText n text => exact Prod.ext rfl (view_of_value (get?_setOwned_eq b n _) rfl)
  | remove n => exact Prod.ext (value?_view b n).symm (view_of_value (get?_remove_eq b n) rfl)
  | addLoop n =>
    refine Prod.ext rfl (view_of_loop (get?_addLoop_eq b n) (loop?_addLoop_eq b n) ?_)
    rw [loop?_view]
    rcases b.loop? n with _ | xs <;> rfl
  | setLoop n xs => exact Prod.ext rfl (view_of_loop rfl (loop?_setLoop_eq b n xs) rfl)
  | addChild n x => exact Prod.ext rfl (view_addChild b n x)
  | pushNew n => exact Prod.ext rfl (view_addChild b n ∅)
  | inside n i e ih =>
    have hstep : ∀ x, (e.onBindings x).1 = (e.onScope x.view).1 ∧
        view (e.onBindings x).2 = (e.onScope x.view).2 := fun x => by
      rw [← ih x]
      exact ⟨rfl, rfl⟩
    simp only [onBindings, onScope, loop?_view]
    rcases hn : b.loop? n with _ | xs
    · have hsame : update b.view.loop? n none = b.view.loop? := by
        rw [Function.update_eq_self_iff, loop?_view, hn]
        rfl
      rw [Option.map_none, Option.map_none, hsame, Scope.of_eta]
      rfl
    · refine Prod.ext ?_ (view_of_loop rfl (loop?_setLoop_eq b n _) ?_)
      · simp only [Prod.map_fst, id, Option.map_some, Option.bind_some, List.getElem?_map]
        rcases xs[i]? with _ | x
        · rfl
        · exact (hstep x).1
      · refine congrArg some (List.ext_getElem? fun k => ?_)
        simp only [List.getElem?_map, List.getElem?_modify]
        rcases xs[k]? with _ | x
        · rfl
        · by_cases hk : i = k <;> simp [hk, (hstep x).2]

theorem view_after (e : Edit) (b : Bindings) : (e.after b).view = (e.onScope b.view).2 :=
  congrArg Prod.snd (view_onBindings e b)

/-! ### The order of calls -/

/-- A call replaces the value of a variable by one that does not depend on the maps, or a loop by
what is made of this loop alone. -/
theorem onScope_eq (e : Edit) : match e.place with
    | .inl n => ∃ w, ∀ s, (e.onScope s).2 = .of (update s.value? n w) s.loop?
    | .inr n => ∃ g : Option (List Scope) → Option (List Scope), ∀ s,
        (e.onScope s).2 = .of s.value? (update s.loop? n (g (s.loop? n))) := by
  cases e with
  | set n v => exact ⟨_, fun _ => rfl⟩
  | setOwned n v => exact ⟨_, fun _ => rfl⟩
  | setText n text => exact ⟨_, fun _ => rfl⟩
  | remove n => exact ⟨_, fun _ => rfl⟩
  | addLoop n => exact ⟨fun old => old.or (some []), fun _ => rfl⟩
  | setLoop n xs => exact ⟨fun _ => some (xs.map view), fun _ => rfl⟩
  | addChild n x => exact ⟨fun old => some (old.getD [] ++ [x.view]), fun _ => rfl⟩
  | pushNew n => exact ⟨fun old => some (old.getD [] ++ [view ∅]), fun _ => rfl⟩
  | inside n i e => exact ⟨fun old => old.map (·.modify i fun x => (e.onScope x).2), fun _ => rfl⟩

/-- Calls in different places can be made in either order. -/
theorem onScope_comm (h : e.place ≠ f.place) (s : Scope) :
    (f.onScope (e.onScope s).2).2 = (e.onScope (f.onScope s).2).2 := by
  have he := onScope_eq e
  have hf := onScope_eq f
  rcases hen : e.place with n | n <;> rcases hfk : f.place with k | k <;>
    rw [hen] at he h <;> rw [hfk] at hf h <;> obtain ⟨x, hx⟩ := he <;> obtain ⟨y, hy⟩ := hf
  · have hne : n ≠ k := fun hnk => h (congrArg _ hnk)
    simp only [hx, hy, Scope.value?, Scope.loop?, Function.update_comm hne]
  · simp only [hx, hy, Scope.value?, Scope.loop?]
  · simp only [hx, hy, Scope.value?, Scope.loop?]
  · have hne : n ≠ k := fun hnk => h (congrArg _ hnk)
    simp only [hx, hy, Scope.value?, Scope.loop?, Function.update_comm hne,
      Function.update_of_ne hne, Function.update_of_ne hne.symm]

/-- A call that overwrites what is in its place leaves no trace of the call before it. -/
theorem onScope_overwrites (hplace : e.place = f.place) (h : f.Overwrites) (s : Scope) :
    (f.onScope (e.onScope s).2).2 = (f.onScope s).2 := by
  have he := onScope_eq e
  rw [hplace] at he
  cases f with
  | set | setOwned | setText | remove | setLoop =>
    obtain ⟨x, hx⟩ := he
    simp [onScope, hx, Scope.value?, Scope.loop?, Function.update_idem]
  | addLoop | addChild | pushNew | inside => exact h.elim

/-! ### Names stay distinct -/

theorem tidy_after (e : Edit) (hb : b.Tidy) (hgiven : ∀ x ∈ e.given, x.Tidy) :
    (e.after b).Tidy := by
  induction e generalizing b with
  | set n v =>
    rw [after, onBindings_set]
    exact hb.setOwned n v
  | setOwned n v => exact hb.setOwned n v
  | setText n text => exact hb.setOwned n _
  | remove n => exact hb.remove n
  | addLoop n =>
    simp only [after, onBindings, Bindings.addLoop]
    rcases b.loop? n with _ | xs
    · exact hb.setLoop n nofun
    · exact hb
  | setLoop n xs => exact hb.setLoop n hgiven
  | addChild n x => exact hb.addChild n (hgiven x (by simp [given]))
  | pushNew n => exact hb.addChild n .empty
  | inside n i e ih =>
    simp only [after, onBindings]
    rcases hn : b.loop? n with _ | xs
    · exact hb
    · refine hb.setLoop n fun y hy => ?_
      obtain ⟨k, hk⟩ := List.mem_iff_getElem?.1 hy
      rw [List.getElem?_modify, Option.map_eq_map, Option.map_eq_some_iff] at hk
      obtain ⟨x, hx, rfl⟩ := hk
      have hchild := hb.child hn (List.mem_of_getElem? hx)
      split_ifs
      · exact ih hchild hgiven
      · exact hchild

end Edit

/-- Binding sets that calls make from the empty one. Those that a call brings in are made so as
well. -/
inductive Built : Bindings → Prop
  | empty : Built ∅
  | after {b : Bindings} (e : Edit) (hb : Built b) (hgiven : ∀ x ∈ e.given, Built x) :
    Built (e.after b)

theorem Built.tidy {b : Bindings} (h : Built b) : b.Tidy := by
  induction h with
  | empty => exact .empty
  | after e _ _ ih ihgiven => exact Edit.tidy_after e ih ihgiven

/-- A binding set that calls have made answers the next call, and is changed by it, as the maps that
it is taken for. Calls in different places can be made in either order, and nothing is left of what
is overwritten or removed. Two binding sets are the same if and only if their names give the same,
that is if they are taken for the same maps; and then no rendering tells them apart. -/
theorem built_behave_as_maps {b : Bindings} (hb : Built b) :
    (∀ e : Edit, (e.onBindings b).map id Bindings.view = e.onScope b.view) ∧
    (∀ e f : Edit, (∀ x ∈ e.given ++ f.given, Built x) →
      (e.place ≠ f.place → f.after (e.after b) == e.after (f.after b)) ∧
      (e.place = f.place → f.Overwrites → f.after (e.after b) == f.after b)) ∧
    ∀ c, Built c →
      (b == c ↔ ∀ n, b.get? n = c.get? n ∧
        Option.Rel (List.Forall₂ fun x y => x == y) (b.loop? n) (c.loop? n)) ∧
      (b == c ↔ b.view = c.view) ∧
      b == b ∧ (b == c → c == b) ∧ (∀ d, Built d → b == c → c == d → b == d) ∧
      (b == c → ∀ (r : Renderer) (files : Files),
        (∀ source, (r.render files source b).result = (r.render files source c).result) ∧
        ∀ path, (r.renderFile files path b).result = (r.renderFile files path c).result) := by
  refine ⟨fun e => e.view_onBindings b, fun e f hgiven => ?_, fun c hc => ?_⟩
  · obtain ⟨he, hf⟩ := List.forall_mem_append.1 hgiven
    have hfirst := Built.after e hb he
    have hsecond := Built.after f hb hf
    constructor
    · intro hplace
      rw [Bindings.same_iff_view (hfirst.after f hf).tidy (hsecond.after e he).tidy]
      simp only [Edit.view_after, Edit.onScope_comm hplace]
    · intro hplace hover
      rw [Bindings.same_iff_view (hfirst.after f hf).tidy hsecond.tidy]
      simp only [Edit.view_after, Edit.onScope_overwrites hplace hover]
  · have hview : ∀ {x y : Bindings}, Built x → Built y → (x == y ↔ x.view = y.view) :=
      fun hx hy => Bindings.same_iff_view hx.tidy hy.tidy
    refine ⟨Bindings.same_iff hb.tidy hc.tidy, hview hb hc, (hview hb hb).2 rfl, ?_, ?_, ?_⟩
    · rw [hview hb hc, hview hc hb]
      exact Eq.symm
    · intro d hd
      rw [hview hb hc, hview hc hd, hview hb hd]
      exact Eq.trans
    · intro hsame r files
      have hpage := Renderer.result_page_of_view hb.tidy ((hview hb hc).1 hsame) r files
      refine ⟨fun source => hpage ⟨source, none⟩, fun path => ?_⟩
      unfold Renderer.renderFile
      rcases files path with why | source
      · rfl
      · exact hpage ⟨source, some path⟩

/-- Two histories of one content: variables in another order, a value that is overwritten, and one
that is removed from a child. -/
theorem built_behave_as_maps_orders :
    let inChild : Edit → Edit := .inside "l" 0
    let b := (inChild (.setText "z" "3")).after ((Edit.pushNew "l").after
      ((Edit.setText "y" "2").after ((Edit.setText "x" "1").after ∅)))
    let c := (Edit.setOwned "x" [49]).after ((inChild (.remove "w")).after
      ((inChild (.set "z" [51])).after ((inChild (.set "w" [])).after ((Edit.set "y" [50]).after
        ((Edit.set "x" []).after ((Edit.pushNew "l").after ∅))))))
    Built b ∧ Built c ∧ b == c ∧ c == b ∧
      (Edit.remove "x").after ((Edit.set "x" []).after b) == (Edit.remove "x").after b ∧
      ∀ (files : Files) (source : Bytes), (Renderer.standard.render files source b).result =
        (Renderer.standard.render files source c).result := by
  intro inChild b c
  have hb : Built b := .after _ (.after _ (.after _ (.after _ .empty nofun) nofun) nofun) nofun
  have hc : Built c := .after _ (.after _ (.after _ (.after _ (.after _ (.after _ (.after _ .empty
    nofun) nofun) nofun) nofun) nofun) nofun) nofun
  have hsame : b == c := by decide +kernel
  obtain ⟨-, hedits, hcompare⟩ := built_behave_as_maps hb
  obtain ⟨-, -, -, hsymm, -, hrender⟩ := hcompare c hc
  refine ⟨hb, hc, hsame, hsymm hsame, ?_, fun files source => ?_⟩
  · exact (hedits (.set "x" []) (.remove "x") nofun).2 rfl trivial
  · exact (hrender hsame Renderer.standard files).1 source

end Stencil
