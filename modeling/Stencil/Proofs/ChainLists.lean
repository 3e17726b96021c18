import Mathlib.Algebra.GroupWithZero.Nat
import Mathlib.Algebra.Order.BigOperators.Group.List
import Mathlib.Algebra.Order.Group.Nat
import Mathlib.Logic.Function.Basic
import Stencil.Chain

/-!
# Chains are lists of chunks

A chain counts its octets beside its chunks, and each operation brings both up to date. Whatever is
done to however many chains, each of them stays a list of chunks, none of them empty, and its count
is that of the octets in them. So the chains do what lists of chunks do (`chains_run_as_lists`), and
octets are neither lost nor doubled, and keep their order, as they are added and moved
(`Operation.Moves`).
-/

namespace Stencil.Chain

/-- The chunks of the chain are those of the list, none of them empty, and its size is the number of
octets in them. -/
structure Holds (c : Chain) (l : List Bytes) : Prop where
  chunks : c.chunks = l
  size : c.size = (l.map List.length).sum
  filled : ∀ bs ∈ l, bs ≠ []

/-- All that can be read off the chain is what the list says. -/
structure ReadsAs (c : Chain) (l : List Bytes) : Prop where
  filled : ∀ bs ∈ l, bs ≠ []
  chunks : c.chunks = l
  size : c.size = (l.map List.length).sum
  chunkCount : c.chunkCount = l.length
  isEmpty : c.isEmpty ↔ l = []
  front : c.front? = l.head?
  back : c.back? = l.getLast?
  bytes : c.bytes = l.flatten
  /-- A chunk that is taken off has no more octets than the chain. -/
  ends : (c.front?.getD []).length ≤ c.size ∧ (c.back?.getD []).length ≤ c.size

/-! ## One chain -/

section Holds

variable {c d : Chain} {l k : List Bytes}

theorem holds_empty : (∅ : Chain).Holds [] := ⟨rfl, rfl, nofun⟩

theorem Holds.push (h : c.Holds l) (bs : Bytes) :
    (c.push bs).Holds (l ++ [bs].filter (· ≠ [])) := by
  obtain ⟨rfl, hsize, hfilled⟩ := h
  unfold Chain.push
  by_cases hbs : bs = []
  · simpa [hbs] using ⟨rfl, hsize, hfilled⟩
  · simp only [List.isEmpty_iff, hbs, if_false, not_false_eq_true, ne_eq, decide_true,
      List.filter_cons_of_pos, List.filter_nil]
    refine ⟨rfl, by simp [hsize], fun b hb => ?_⟩
    rcases List.mem_append.1 hb with hb | hb
    · exact hfilled b hb
    · rwa [List.mem_singleton.1 hb]

theorem Holds.extend : ∀ {c : Chain} {l : List Bytes} (values : List Bytes), c.Holds l →
    (c.extend values).Holds (l ++ values.filter (· ≠ []))
  | _, _, [], h => by simpa [Chain.extend] using h
  | c, l, bs :: values, h => by
    have ih := Holds.extend values (h.push bs)
    rw [List.append_assoc, ← List.filter_append] at ih
    exact ih

theorem Holds.append (h : c.Holds l) (hd : d.Holds k) : (c ++ d).Holds (l ++ k) := by
  obtain ⟨rfl, hsize, hfilled⟩ := h
  obtain ⟨rfl, hsize', hfilled'⟩ := hd
  refine ⟨rfl, ?_, fun bs hbs => (List.mem_append.1 hbs).elim (hfilled bs) (hfilled' bs)⟩
  rw [List.map_append, List.sum_append, ← hsize, ← hsize']
  rfl

theorem Holds.popFront (h : c.Holds l) : match c.popFront? with
    | some (bs, d) => l.head? = some bs ∧ d.Holds l.tail
    | none => l = [] := by
  obtain ⟨rfl, hsize, hfilled⟩ := h
  unfold popFront?
  rcases hc : c.chunks with _ | ⟨bs, rest⟩
  · rfl
  · rw [hc] at hsize hfilled
    refine ⟨rfl, rfl, ?_, fun b hb => hfilled b (List.mem_cons_of_mem bs hb)⟩
    simp [hsize]

theorem Holds.popBack (h : c.Holds l) : match c.popBack? with
    | some (bs, d) => l.getLast? = some bs ∧ d.Holds l.dropLast
    | none => l = [] := by
  obtain ⟨rfl, hsize, hfilled⟩ := h
  unfold popBack?
  rcases hc : c.chunks.getLast? with _ | bs
  · exact List.getLast?_eq_none_iff.1 hc
  · refine ⟨rfl, rfl, ?_, fun b hb => hfilled b (List.dropLast_subset _ hb)⟩
    have hsplit : c.chunks.dropLast ++ [bs] = c.chunks := List.dropLast_append_getLast? bs hc
    rw [hsize, ← hsplit]
    simp

theorem Holds.length_le (h : c.Holds l) {bs : Bytes} (hbs : bs ∈ l) : bs.length ≤ c.size := by
  rw [h.size]
  exact List.le_sum_of_mem (List.mem_map_of_mem hbs)

theorem Holds.isEmpty_iff (h : c.Holds l) : c.isEmpty ↔ l = [] := by
  rw [isEmpty, beq_iff_eq]
  constructor
  · intro hzero
    refine List.eq_nil_iff_forall_not_mem.2 fun bs hbs => h.filled bs hbs ?_
    exact List.eq_nil_of_length_eq_zero (Nat.le_zero.1 (hzero ▸ h.length_le hbs))
  · rintro rfl
    exact h.size

theorem Holds.readsAs (h : c.Holds l) : c.ReadsAs l where
  filled := h.filled
  chunks := h.chunks
  size := h.size
  chunkCount := by rw [Chain.chunkCount, h.chunks]
  isEmpty := h.isEmpty_iff
  front := by rw [front?, h.chunks]
  back := by rw [back?, h.chunks]
  bytes := by rw [Chain.bytes, h.chunks]
  ends := by
    rw [front?, back?, h.chunks]
    constructor
    · rcases hl : l.head? with _ | bs
      · exact Nat.zero_le _
      · exact h.length_le (List.mem_of_head? hl)
    · rcases hl : l.getLast? with _ | bs
      · exact Nat.zero_le _
      · exact h.length_le (List.mem_of_getLast? hl)

end Holds

/-! ## The octets of a chain -/

theorem bytes_extend : ∀ (values : List Bytes) (c : Chain),
    (c.extend values).bytes = c.bytes ++ values.flatten
  | [], c => by simp [extend]
  | bs :: values, c => by
    have ih := bytes_extend values (c.push bs)
    rw [bytes_push, List.append_assoc] at ih
    exact ih

theorem bytes_of_popFront? {c d : Chain} {bs : Bytes} (h : c.popFront? = some (bs, d)) :
    c.bytes = bs ++ d.bytes := by
  unfold popFront? at h
  split at h
  · cases h
  · rename_i hc
    obtain ⟨rfl, rfl⟩ := Prod.mk.inj (Option.some.inj h)
    simp [bytes, hc]

theorem bytes_of_popBack? {c d : Chain} {bs : Bytes} (h : c.popBack? = some (bs, d)) :
    c.bytes = d.bytes ++ bs := by
  unfold popBack? at h
  split at h
  · cases h
  · rename_i hc
    obtain ⟨rfl, rfl⟩ := Prod.mk.inj (Option.some.inj h)
    have hsplit := List.dropLast_append_getLast? _ hc
    simp only [bytes]
    conv_lhs => rw [← hsplit]
    simp

/-! ## Many chains -/

/-- An operation on chains, which are told apart by names. -/
inductive Operation (ι : Type) where
  /-- Octets are added, be they copied or taken over. -/
  | push (on : ι) (bs : Bytes)
  | pushText (on : ι) (s : String)
  /-- The chain is replaced by one of a text. -/
  | ofText (on : ι) (s : String)
  | extend (on : ι) (values : List Bytes)
  /-- All chunks of one chain move to the end of another one. -/
  | drain (into source : ι) (apart : into ≠ source)
  | popFront (on : ι)
  | popBack (on : ι)

namespace Operation

variable {ι σ : Type} [DecidableEq ι]

open Function (update)

/-- The chunk that the operation takes off, if it does, and the chains afterwards. -/
def onChains (cs : ι → Chain) : Operation ι → Option Bytes × (ι → Chain)
  | .push on bs => (none, update cs on ((cs on).push bs))
  | .pushText on s => (none, update cs on ((cs on).push (.ofString s)))
  | .ofText on s => (none, update cs on (.ofBytes (.ofString s)))
  | .extend on values => (none, update cs on ((cs on).extend values))
  | .drain into source _ =>
    let (joined, rest) := (cs into).drainInto (cs source)
    (none, update (update cs source rest) into joined)
  | .popFront on =>
    match (cs on).popFront? with
    | some (bs, c) => (some bs, update cs on c)
    | none => (none, cs)
  | .popBack on =>
    match (cs on).popBack? with
    | some (bs, c) => (some bs, update cs on c)
    | none => (none, cs)

/-- The same on lists of chunks: octets are added at the end unless there are none, a list moves as
a whole, and a chunk is taken off at either end. -/
def onLists (ls : ι → List Bytes) : Operation ι → Option Bytes × (ι → List Bytes)
  | .push on bs => (none, update ls on (ls on ++ [bs].filter (· ≠ [])))
  | .pushText on s => (none, update ls on (ls on ++ [Bytes.ofString s].filter (· ≠ [])))
  | .ofText on s => (none, update ls on ([Bytes.ofString s].filter (· ≠ [])))
  | .extend on values => (none, update ls on (ls on ++ values.filter (· ≠ [])))
  | .drain into source _ => (none, update (update ls source []) into (ls into ++ ls source))
  | .popFront on => ((ls on).head?, update ls on (ls on).tail)
  | .popBack on => ((ls on).getLast?, update ls on (ls on).dropLast)

/-- The octets of all chains before and after an operation that has taken off a chunk, or none. -/
def Moves (taken : Option Bytes) (before after : ι → Bytes) : Operation ι → Prop
  | .push on bs => after = update before on (before on ++ bs)
  | .pushText on s => after = update before on (before on ++ .ofString s)
  | .ofText on s => after = update before on (.ofString s)
  | .extend on values => after = update before on (before on ++ values.flatten)
  | .drain into source _ =>
    after = update (update before source []) into (before into ++ before source)
  | .popFront on => before = update after on (taken.getD [] ++ after on)
  | .popBack on => before = update after on (after on ++ taken.getD [])

/-- What operations take off, one after the other, and what is there after them. -/
def run (step : σ → Operation ι → Option Bytes × σ) :
    σ → List (Operation ι) → List (Option Bytes) × σ
  | s, [] => ([], s)
  | s, o :: rest =>
    let (taken, s) := step s o
    let (more, s) := run step s rest
    (taken :: more, s)

variable {cs : ι → Chain} {ls : ι → List Bytes}

theorem holds_update (h : ∀ i, (cs i).Holds (ls i)) (on : ι) {c : Chain} {l : List Bytes}
    (hc : c.Holds l) (i : ι) : (update cs on c i).Holds (update ls on l i) := by
  by_cases hi : i = on
  · subst hi
    simpa using hc
  · simpa [hi] using h i

/-- An operation takes the same off chains as off lists, and leaves chains that hold the lists. -/
theorem holds_step (h : ∀ i, (cs i).Holds (ls i)) (o : Operation ι) :
    (o.onChains cs).1 = (o.onLists ls).1 ∧
      ∀ i, ((o.onChains cs).2 i).Holds ((o.onLists ls).2 i) := by
  cases o with
  | push on bs => exact ⟨rfl, holds_update h on ((h on).push bs)⟩
  | pushText on s => exact ⟨rfl, holds_update h on ((h on).push (.ofString s))⟩
  | ofText on s => exact ⟨rfl, holds_update h on (holds_empty.push (.ofString s))⟩
  | extend on values => exact ⟨rfl, holds_update h on ((h on).extend values)⟩
  | drain into source apart =>
    exact ⟨rfl, holds_update (holds_update h source holds_empty) into ((h into).append (h source))⟩
  | popFront on =>
    have hpop := (h on).popFront
    simp only [onChains, onLists]
    rcases hc : (cs on).popFront? with _ | ⟨bs, c⟩ <;> rw [hc] at hpop
    · have hnil : ls on = [] := hpop
      rw [hnil, Function.update_eq_self_iff.2 (by rw [hnil, List.tail_nil])]
      exact ⟨rfl, h⟩
    · exact ⟨hpop.1.symm, holds_update h on hpop.2⟩
  | popBack on =>
    have hpop := (h on).popBack
    simp only [onChains, onLists]
    rcases hc : (cs on).popBack? with _ | ⟨bs, c⟩ <;> rw [hc] at hpop
    · have hnil : ls on = [] := hpop
      rw [hnil, Function.update_eq_self_iff.2 (by rw [hnil, List.dropLast_nil])]
      exact ⟨rfl, h⟩
    · exact ⟨hpop.1.symm, holds_update h on hpop.2⟩

theorem holds_run : ∀ (ops : List (Operation ι)) {cs : ι → Chain} {ls : ι → List Bytes},
    (∀ i, (cs i).Holds (ls i)) → (run onChains cs ops).1 = (run onLists ls ops).1 ∧
      ∀ i, ((run onChains cs ops).2 i).Holds ((run onLists ls ops).2 i)
  | [], _, _, h => ⟨rfl, h⟩
  | o :: rest, _, _, h => by
    obtain ⟨htaken, hstep⟩ := holds_step h o
    obtain ⟨hmore, hrun⟩ := holds_run rest hstep
    exact ⟨congrArg₂ List.cons htaken hmore, hrun⟩

theorem moves_step (cs : ι → Chain) (o : Operation ι) :
    o.Moves (o.onChains cs).1 (bytes ∘ cs) (bytes ∘ (o.onChains cs).2) := by
  cases o with
  | push | pushText | ofText => simp [Moves, onChains, Function.comp_update]
  | extend on values => simp [Moves, onChains, Function.comp_update, bytes_extend]
  | drain into source apart =>
    simp only [Moves, onChains, drainInto, Function.comp_update, bytes_append]
    rfl
  | popFront on =>
    simp only [Moves, onChains]
    rcases hc : (cs on).popFront? with _ | ⟨bs, c⟩
    · simp
    · simp [Function.comp_update, ← bytes_of_popFront? hc]
  | popBack on =>
    simp only [Moves, onChains]
    rcases hc : (cs on).popBack? with _ | ⟨bs, c⟩
    · simp
    · simp [Function.comp_update, ← bytes_of_popBack? hc]

/-- Operations on chains that are empty at first take off what they take off lists of chunks, and
at every point each chain reads as its list. A further operation adds, moves and takes off octets
as they are, in order. -/
theorem chains_run_as_lists (ops : List (Operation ι)) :
    (run onChains (fun _ => ∅) ops).1 = (run onLists (fun _ => []) ops).1 ∧
      (∀ i, ((run onChains (fun _ => ∅) ops).2 i).ReadsAs ((run onLists (fun _ => []) ops).2 i)) ∧
      ∀ o : Operation ι, let cs := (run onChains (fun _ => ∅) ops).2
        o.Moves (o.onChains cs).1 (bytes ∘ cs) (bytes ∘ (o.onChains cs).2) := by
  obtain ⟨htaken, hrun⟩ := holds_run ops fun _ => holds_empty
  exact ⟨htaken, fun i => (hrun i).readsAs, moves_step _⟩

example : (run onChains (fun _ => ∅) [.push false [104], .push true [105, 33], .push true [],
    .drain false true (by decide), .popBack false]).1 = [none, none, none, none, some [105, 33]] :=
  rfl

end Operation

end Stencil.Chain
