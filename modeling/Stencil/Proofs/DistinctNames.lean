import Mathlib.Data.List.Perm.Subperm
import Mathlib.Tactic.Tauto
import Stencil.Named

/-!
# Lists of names as maps

A list of names with their values in which no name is there twice is a map: what stands in the list
is what its names give (`mem_iff_get?`), in whatever order, and adding or taking away a name keeps
it so.
-/

namespace Stencil

namespace Named

variable {ν α β : Type} [DecidableEq ν] {m : Named ν α} {m' : Named ν β}

/-- No name is there twice. -/
def Distinct (m : Named ν α) : Prop := (m.map (·.1)).Nodup

theorem mem_names_put (n k : ν) (v : α) : ∀ m : Named ν α,
    k ∈ (put n v m).map (·.1) ↔ k = n ∨ k ∈ m.map (·.1)
  | [] => by simp [put]
  | (j, w) :: rest => by
    by_cases h : j = n
    · simp [put, h]
    · simp only [put, if_neg h, List.map_cons, List.mem_cons, mem_names_put n k v rest]
      tauto

theorem distinct_put (n : ν) (v : α) : ∀ {m : Named ν α}, m.Distinct → (put n v m).Distinct
  | [], _ => by simp [put, Distinct]
  | (j, w) :: rest, h => by
    obtain ⟨hj, hrest⟩ := List.nodup_cons.1 h
    by_cases hn : j = n
    · subst hn
      simpa [put, Distinct] using h
    · have ih : (put n v rest).Distinct := distinct_put n v hrest
      simp only [put, if_neg hn, Distinct, List.map_cons, List.nodup_cons, mem_names_put]
      exact ⟨fun hmem => hmem.elim hn hj, ih⟩

theorem distinct_erase (n : ν) (h : m.Distinct) : (erase n m).Distinct :=
  List.Nodup.sublist (List.filter_sublist.map _) h

theorem mem_names_iff (n : ν) : ∀ m : Named ν α, n ∈ m.map (·.1) ↔ ∃ v, get? n m = some v
  | [] => by simp
  | (k, w) :: rest => by
    by_cases h : n = k
    · simp [get?_cons, h]
    · simp only [List.map_cons, List.mem_cons, h, false_or, get?_cons, if_false,
        mem_names_iff n rest]

theorem mem_iff_get? {n : ν} {v : α} : ∀ {m : Named ν α}, m.Distinct →
    ((n, v) ∈ m ↔ get? n m = some v)
  | [], _ => by simp
  | (k, w) :: rest, h => by
    obtain ⟨hk, hrest⟩ := List.nodup_cons.1 h
    have ih := mem_iff_get? (n := n) (v := v) (m := rest) hrest
    by_cases hn : n = k
    · subst hn
      have hv : (n, v) ∉ rest := fun hmem => hk (List.mem_map_of_mem (f := (·.1)) hmem)
      simp [get?_cons, hv, eq_comm]
    · simp [get?_cons, hn, ih]

/-- Two lists of as many names give related values for every name if the values that the one has
are related to those of the other. -/
theorem rel_get?_iff {R : α → β → Prop} (h : m.Distinct) (h' : m'.Distinct) :
    (m.length = m'.length ∧ ∀ n v, (n, v) ∈ m → ∃ w, get? n m' = some w ∧ R v w) ↔
      ∀ n, Option.Rel R (get? n m) (get? n m') := by
  constructor
  · rintro ⟨hlen, hrel⟩ n
    have hsub : m.map (·.1) ⊆ m'.map (·.1) := by
      intro k hk
      obtain ⟨v, hv⟩ := (mem_names_iff k m).1 hk
      obtain ⟨w, hw, -⟩ := hrel k v ((mem_iff_get? h).2 hv)
      exact (mem_names_iff k m').2 ⟨w, hw⟩
    have hperm : (m.map (·.1)).Perm (m'.map (·.1)) :=
      (List.subperm_of_subset h hsub).perm_of_length_le (by simp [hlen])
    rcases hv : get? n m with _ | v
    · have hn : get? n m' = none := by
        rw [Option.eq_none_iff_forall_ne_some]
        intro w hw
        obtain ⟨v, hv'⟩ := (mem_names_iff n m).1 (hperm.mem_iff.2 ((mem_names_iff n m').2 ⟨w, hw⟩))
        rw [hv] at hv'
        cases hv'
      rw [hn]
      exact .none
    · obtain ⟨w, hw, hvw⟩ := hrel n v ((mem_iff_get? h).2 hv)
      rw [hw]
      exact .some hvw
  · intro hrel
    have hnames : ∀ n, n ∈ m.map (·.1) ↔ n ∈ m'.map (·.1) := by
      intro n
      rw [mem_names_iff, mem_names_iff]
      have hn := hrel n
      generalize get? n m = v, get? n m' = w at hn
      cases hn <;> simp
    have hperm := (List.perm_ext_iff_of_nodup h h').2 hnames
    refine ⟨by simpa using hperm.length_eq, fun n v hv => ?_⟩
    have hn := hrel n
    rw [(mem_iff_get? h).1 hv] at hn
    generalize get? n m' = w at hn
    cases hn with
    | some hvw => exact ⟨_, rfl, hvw⟩

end Named

end Stencil
