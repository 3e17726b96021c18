/-!
# Values by name

A list of names with their values, each name at most once. A name keeps its place when its value
changes; a new one goes to the end.
-/

namespace Stencil

/-- Values by name. -/
abbrev Named (ν α : Type) := List (ν × α)

namespace Named

variable {ν α : Type} [DecidableEq ν]

/-- The value of a name. -/
def get? (n : ν) (m : Named ν α) : Option α := m.lookup n

/-- Gives the name a value, whether it had one or not. -/
def put (n : ν) (v : α) : Named ν α → Named ν α
  | [] => [(n, v)]
  | (k, w) :: rest => if k = n then (n, v) :: rest else (k, w) :: put n v rest

/-- Changes the value that the name has, if it has one. -/
def modify (n : ν) (f : α → α) : Named ν α → Named ν α
  | [] => []
  | (k, w) :: rest => if k = n then (k, f w) :: rest else (k, w) :: modify n f rest

/-- Takes the name away. -/
def erase (n : ν) (m : Named ν α) : Named ν α := m.filter (·.1 ≠ n)

@[simp] theorem get?_nil (n : ν) : get? n ([] : Named ν α) = none := rfl

theorem get?_cons (n k : ν) (v : α) (m : Named ν α) :
    get? n ((k, v) :: m) = if n = k then some v else get? n m := by
  by_cases h : n = k
  · simp [get?, h]
  · have hb : (n == k) = false := by simp [h]
    simp [get?, List.lookup_cons, h, hb]

/-- A name that is put changes what this name gives, and nothing else. -/
theorem get?_put (n k : ν) (v : α) : ∀ m : Named ν α,
    get? n (put k v m) = if n = k then some v else get? n m
  | [] => by simp [put, get?_cons]
  | (j, w) :: rest => by
    by_cases h : j = k
    · subst h
      by_cases hn : n = j <;> simp [put, get?_cons, hn]
    · by_cases hn : n = j
      · subst hn
        simp [put, get?_cons, h]
      · simp [put, get?_cons, h, hn, get?_put n k v rest]

/-- Where the name has a value, it can as well be changed in its place as put. -/
theorem modify_eq_put (n : ν) (v : α) : ∀ {m : Named ν α} {w : α}, get? n m = some w →
    modify n (fun _ => v) m = put n v m
  | (k, w) :: rest, w', h => by
    by_cases hk : k = n
    · subst hk
      simp [modify, put]
    · rw [get?_cons, if_neg (Ne.symm hk)] at h
      simp [modify, put, hk, modify_eq_put n v h]

theorem erase_cons (n k : ν) (v : α) (m : Named ν α) :
    erase n ((k, v) :: m) = if k = n then erase n m else (k, v) :: erase n m := by
  by_cases h : k = n <;> simp [erase, h]

/-- A name that is taken away gives nothing, and every other name what it gave. -/
theorem get?_erase (n k : ν) : ∀ m : Named ν α,
    get? n (erase k m) = if n = k then none else get? n m
  | [] => by simp [erase]
  | (j, w) :: rest => by
    have ih := get?_erase n k rest
    by_cases h : j = k
    · subst h
      by_cases hn : n = j <;> simp_all [erase_cons, get?_cons]
    · by_cases hn : n = j
      · subst hn
        simp [erase_cons, get?_cons, h]
      · simp [erase_cons, get?_cons, ih, h, hn]

end Named

end Stencil
