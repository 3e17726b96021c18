import Stencil.Proofs.ChainLists
import Stencil.Proofs.WellFormedText

/-!
# What becomes of the octets of a chain

Where one chunk of a chain ends and the next one begins is not seen in what the chain gives.

Chunk after chunk is written into an area as all of their octets at once would be
(`writeChunks_eq_write`): as far as there is room. If that is enough for all of them, the size that
the chain has counted tells how many they are (`writeTo_fills`).

As a text the chain gives all of its octets or the first thing that is wrong with them, also where a
character is spread over chunks (`text_or_first_fault`).
-/

namespace Stencil

/-! ## Areas -/

namespace Area

variable {a : Area} {bs r : Bytes}

theorem write_eq (a : Area) (bs : Bytes) : a.write bs =
    (⟨a.filled ++ bs.take a.free.length, a.free.drop bs.length⟩,
      decide (bs.length ≤ a.free.length)) := by
  have hfits : (min bs.length a.free.length == bs.length) = decide (bs.length ≤ a.free.length) := by
    rw [Bool.eq_iff_iff, beq_iff_eq, decide_eq_true_iff, min_eq_left_iff]
  have htake : bs.take (min bs.length a.free.length) = bs.take a.free.length := by
    simp [List.take_eq_take_iff, Nat.min_comm]
  have hdrop : a.free.drop (min bs.length a.free.length) = a.free.drop bs.length := by
    simp [List.drop_eq_drop_iff]
  simp only [write, hfits, htake, hdrop]

/-- What follows octets that fit is written behind them. -/
theorem write_append_of_le (h : bs.length ≤ a.free.length) (r : Bytes) :
    a.write (bs ++ r) = (a.write bs).1.write r := by
  have hroom : bs.length + r.length ≤ a.free.length ↔ r.length ≤ a.free.length - bs.length := by
    omega
  simp only [write_eq, List.length_append, hroom, List.length_drop, List.take_append,
    List.take_of_length_le h, List.drop_drop, List.append_assoc]

/-- Nothing is written of what follows octets that do not fit. -/
theorem write_append_of_lt (h : a.free.length < bs.length) (r : Bytes) :
    a.write (bs ++ r) = ((a.write bs).1, false) := by
  have hover : a.free.length < (bs ++ r).length := by
    rw [List.length_append]
    omega
  simp only [write_eq, Nat.not_le.2 hover, decide_false, List.take_append_of_le_length h.le,
    List.drop_of_length_le h.le, List.drop_of_length_le hover.le]

end Area

namespace Chain

/-! ## Writing -/

theorem writeChunks_eq_write : ∀ (chunks : List Bytes) (a : Area),
    writeChunks chunks a = a.write chunks.flatten
  | [], a => by simp [writeChunks, Area.write_eq]
  | bs :: rest, a => by
    rw [writeChunks, List.flatten_cons]
    rcases Nat.lt_or_ge a.free.length bs.length with h | h
    · rw [Area.write_append_of_lt h, Area.write_eq, decide_eq_false (Nat.not_le.2 h)]
    · rw [Area.write_append_of_le h, ← writeChunks_eq_write rest, Area.write_eq, decide_eq_true h]

theorem writeTo_eq (c : Chain) (a : Area) : c.writeTo a =
    ((a.write c.bytes).1, if c.bytes.length ≤ a.free.length then some c.size else none) := by
  have hall : (a.write c.bytes).2 = decide (c.bytes.length ≤ a.free.length) := by
    rw [Area.write_eq]
  rw [writeTo, writeChunks_eq_write, ← bytes]
  rcases hw : a.write c.bytes with ⟨a', _ | _⟩ <;> rw [hw] at hall
  · rw [if_neg (of_decide_eq_false hall.symm)]
  · rw [if_pos (of_decide_eq_true hall.symm)]

theorem Holds.size_eq {c : Chain} {l : List Bytes} (h : c.Holds l) : c.size = c.bytes.length := by
  rw [h.size, bytes, h.chunks, List.length_flatten]

section Operations

open Operation

variable {ι : Type} [DecidableEq ι]

theorem size_run (ops : List (Operation ι)) (i : ι) :
    ((run onChains (fun _ => ∅) ops).2 i).size =
      ((run onChains (fun _ => ∅) ops).2 i).bytes.length :=
  ((holds_run ops fun _ => holds_empty).2 i).size_eq

/-- A chain that has come about by any operations writes as many of its octets into an area as there
is room for, and leaves what is behind them as it is. It succeeds if and only if there is room for
all of them, and tells then how many they are. The chain is only read. So another chain of the same
octets does the same, whatever the chunks of the two are. -/
theorem writeTo_fills (ops : List (Operation ι)) (i : ι) (a : Area) :
    let c := (run onChains (fun _ => ∅) ops).2 i
    let n := min c.bytes.length a.free.length
    (c.writeTo a).1 = ⟨a.filled ++ c.bytes.take n, a.free.drop n⟩ ∧
      (c.writeTo a).1.content = a.filled ++ (c.bytes.take n ++ a.free.drop n) ∧
      (c.writeTo a).2 = (if c.bytes.length ≤ a.free.length then some c.bytes.length else none) ∧
      ∀ (ops' : List (Operation ι)) (i' : ι), let d := (run onChains (fun _ => ∅) ops').2 i'
        d.bytes = c.bytes → d.writeTo a = c.writeTo a := by
  intro c n
  have hwritten : (c.writeTo a).1 = ⟨a.filled ++ c.bytes.take n, a.free.drop n⟩ := by
    rw [writeTo_eq]
    rfl
  refine ⟨hwritten, ?_, ?_, fun ops' i' h => ?_⟩
  · rw [hwritten, Area.content, List.append_assoc]
  · rw [writeTo_eq, size_run]
  · rw [writeTo_eq, writeTo_eq, size_run, size_run, h]

example : (extend ∅ [[1, 2], [3, 4]]).writeTo ⟨[0], [9, 9, 9]⟩ = (⟨[0, 1, 2, 3], []⟩, none) := by
  decide

end Operations

/-! ## Reading as a text -/

theorem zeroFrom?_eq : ∀ (i : Nat) (bs : Bytes),
    zeroFrom? i bs = (bs.findIdx? (· == 0)).map (i + ·)
  | _, [] => rfl
  | i, b :: bs => by
    rw [zeroFrom?, List.findIdx?_cons, zeroFrom?_eq (i + 1) bs]
    by_cases hb : b = 0
    · simp [hb]
    · simp [hb, Option.map_map, Function.comp_def, Nat.add_assoc, Nat.add_comm 1]

theorem zeroFrom?_eq_none_iff {bs : Bytes} : zeroFrom? 0 bs = none ↔ 0 ∉ bs := by
  rw [zeroFrom?_eq, Option.map_eq_none_iff, List.findIdx?_eq_none_iff, ← List.forall_mem_ne']
  simp only [beq_eq_false_iff_ne, ne_eq]

theorem zeroFrom?_eq_some_iff {bs : Bytes} {k : Nat} :
    zeroFrom? 0 bs = some k ↔ bs[k]? = some 0 ∧ ∀ j < k, bs[j]? ≠ some 0 := by
  have hmap : (bs.findIdx? (· == 0)).map (0 + ·) = bs.findIdx? (· == 0) := by simp
  rw [zeroFrom?_eq, hmap, List.findIdx?_eq_some_iff_getElem]
  constructor
  · rintro ⟨hk, hzero, hbefore⟩
    refine ⟨by simpa [List.getElem?_eq_getElem hk] using hzero, fun j hj => ?_⟩
    simpa [List.getElem?_eq_getElem (hj.trans hk)] using hbefore j hj
  · rintro ⟨hzero, hbefore⟩
    obtain ⟨hk, hzero⟩ := List.getElem?_eq_some_iff.1 hzero
    refine ⟨hk, by simp [hzero], fun j hj => ?_⟩
    simpa [List.getElem?_eq_getElem (hj.trans hk)] using hbefore j hj

theorem text_of_zero {c : Chain} {k : Nat} (h : zeroFrom? 0 c.bytes = some k) :
    c.text = .error (.zero k) := by
  rw [text, h]

theorem text_of_not_mem {c : Chain} (h : 0 ∉ c.bytes) :
    c.text = (Utf8.decode c.bytes).mapError .illFormed := by
  rw [text, zeroFrom?_eq_none_iff.2 h]

/-- A chain is read as a text by its octets alone, however they are divided into chunks. If none of
them is zero and they are well formed it gives the text that has these octets. It is refused for its
first zero octet if it has one, whatever else is wrong in front of that, and otherwise for not being
well formed, where its longest well-formed beginning ends. -/
theorem text_or_first_fault (c : Chain) :
    (∀ d : Chain, d.bytes = c.bytes → d.text = c.text) ∧
      (∀ t, c.text = .ok t ↔ 0 ∉ c.bytes ∧ c.bytes = .ofString t) ∧
      (∀ k, c.text = .error (.zero k) ↔ c.bytes[k]? = some 0 ∧ ∀ j < k, c.bytes[j]? ≠ some 0) ∧
      ∀ k, c.text = .error (.illFormed k) ↔ 0 ∉ c.bytes ∧ ¬ Utf8.WellFormed c.bytes ∧
        Utf8.WellFormed (c.bytes.take k) ∧
        ∀ w, w <+: c.bytes → Utf8.WellFormed w → w.length ≤ k := by
  refine ⟨fun d hd => by rw [text, text, hd], ?_⟩
  simp only [← zeroFrom?_eq_some_iff, ← Utf8.decode_eq_error_iff, ← Utf8.decode_eq_ok_iff]
  rcases hz : zeroFrom? 0 c.bytes with _ | k
  · have hnone := zeroFrom?_eq_none_iff.1 hz
    rw [text_of_not_mem hnone]
    rcases hd : Utf8.decode c.bytes with e | t <;> simp [Except.mapError, hnone]
  · have hmem : 0 ∈ c.bytes := by
      by_contra h
      rw [zeroFrom?_eq_none_iff.2 h] at hz
      cases hz
    rw [text_of_zero hz]
    simp [hmem]

example : (extend ∅ [[0xC3], [0xA9, 0x21], [0xE2, 0x82]]).text = .error (.illFormed 3) := by decide

example : (extend ∅ [[0xFF, 0x21], [], [0x21, 0], [0]]).text = .error (.zero 3) := by decide

end Chain

end Stencil
