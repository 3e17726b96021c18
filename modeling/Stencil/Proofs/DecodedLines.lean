import Mathlib.Tactic.ByContra
import Stencil.Diagnostic
import Stencil.Proofs.LossyText

/-!
# Lines of a text that was decoded lossily

A newline octet is read as a newline and ends whatever was read before it, so that lines of octets
become lines of text one by one. But the text of a line may be longer than its octets, and is never
shorter (`length_le_decodedSize`). So an offset into the octets, looked up in the text, is in its
line or in an earlier one, and in its own line only if no newline before it has moved beyond it
(`line_ofOffset_eq_iff`).
-/

namespace Stencil

/-- The line of an offset: one more than the newlines before it. -/
def Bytes.line (source : Bytes) (offset : Nat) : Nat := 1 + (source.take offset).count 10

namespace Utf8

variable {b : UInt8} {c : Option Char} {s s' : State} {k : Nat}

/-- The number of octets that encode the characters. -/
def encodedSize (cs : List Char) : Nat := (cs.flatMap String.utf8EncodeChar).length

/-- The number of octets in the text that the octets are decoded to. -/
def decodedSize (bs : Bytes) : Nat := (Bytes.ofString (lossy bs)).length

theorem encodedSize_nil : encodedSize [] = 0 := rfl

theorem encodedSize_cons (x : Char) (cs : List Char) :
    encodedSize (x :: cs) = x.utf8Size + encodedSize cs := by
  simp [encodedSize]

theorem encodedSize_append (cs ds : List Char) :
    encodedSize (cs ++ ds) = encodedSize cs + encodedSize ds := by
  simp [encodedSize]

theorem decodedSize_eq (bs : Bytes) : decodedSize bs = encodedSize (lossyFrom .between bs) := by
  rw [decodedSize, lossy, Bytes.ofString_ofList, encodedSize]

/-! ## Newlines -/

theorem beyond_of_feed (hs : s.Beyond) (h : s.feed b = some (c, s')) : s'.Beyond := by
  cases s with
  | between =>
    rcases feed_between h with ⟨-, -, rfl⟩ | ⟨-, -, hs'⟩
    · trivial
    · exact hs'
  | inside owed low high value =>
    rcases hs.feed h with ⟨n, -, -, rfl⟩ | ⟨-, -, hs'⟩
    · trivial
    · exact hs'

/-- An ASCII character is read wherever the octets have it, and ends what was read before. -/
theorem lossyFrom_append_plain (hb : Plain b) (r : Bytes) : ∀ {a : Bytes} {s : State}, s.Beyond →
    lossyFrom s (a ++ b :: r) = lossyFrom s a ++ Char.ofNat b.toNat :: lossyFrom .between r := by
  intro a
  induction a with
  | nil =>
    intro s hs
    cases s with
    | between => simpa [lossyFrom] using lossyFrom_plain hb r
    | inside owed low high value =>
      have hrefused : (State.inside owed low high value).feed b = none := by
        have hlow := hs.1
        have hlt := hb.2
        rw [State.feed, if_neg]
        rw [UInt8.le_iff_toNat_le]
        omega
      rw [List.nil_append, lossyFrom_of_refused_inside hrefused, lossyFrom_plain hb]
      rfl
  | cons x a ih =>
    have accepted : ∀ {s s' : State} {c : Option Char}, s.Beyond → s.feed x = some (c, s') →
        lossyFrom s (x :: a ++ b :: r) =
          lossyFrom s (x :: a) ++ Char.ofNat b.toNat :: lossyFrom .between r := by
      intro s s' c hs hf
      rw [List.cons_append, lossyFrom_of_feed hf, lossyFrom_of_feed hf, ih (beyond_of_feed hs hf),
        List.append_assoc]
    have between : lossyFrom .between (x :: a ++ b :: r) =
        lossyFrom .between (x :: a) ++ Char.ofNat b.toNat :: lossyFrom .between r := by
      rcases hf : State.between.feed x with _ | ⟨c, s'⟩
      · rw [List.cons_append, lossyFrom_of_refused hf, lossyFrom_of_refused hf, ih beyond_between,
          List.cons_append]
      · exact accepted beyond_between hf
    intro s hs
    cases s with
    | between => exact between
    | inside owed low high value =>
      rcases hf : (State.inside owed low high value).feed x with _ | ⟨c, s'⟩
      · -- the octet is read anew from between characters
        rw [List.cons_append, lossyFrom_of_refused_inside hf, lossyFrom_of_refused_inside hf,
          ← List.cons_append, between, List.cons_append]
      · exact accepted hs hf

theorem plain_newline : Plain 10 := ⟨by decide, by decide⟩

theorem lossyFrom_append_newline (a r : Bytes) : lossyFrom .between (a ++ 10 :: r) =
    lossyFrom .between a ++ '\n' :: lossyFrom .between r :=
  lossyFrom_append_plain plain_newline r beyond_between

/-- The text has as many newlines as the octets. -/
theorem count_newline_lossyFrom (bs : Bytes) :
    (lossyFrom .between bs).count '\n' = bs.count 10 := by
  by_cases h : 10 ∈ bs
  · obtain ⟨a, r, hbs, ha⟩ := List.eq_append_cons_of_mem h
    have hshorter : r.length < bs.length := by
      rw [hbs, List.length_append, List.length_cons]
      omega
    have hnone : '\n' ∉ lossyFrom .between a :=
      fun hmem => ha (mem_of_mem_lossyFrom plain_newline beyond_between hmem)
    rw [hbs, lossyFrom_append_newline, List.count_append, List.count_append,
      List.count_eq_zero_of_not_mem hnone, List.count_eq_zero_of_not_mem ha, List.count_cons_self,
      List.count_cons_self, count_newline_lossyFrom r]
  · rw [List.count_eq_zero_of_not_mem h, List.count_eq_zero_of_not_mem]
    exact fun hmem => h (mem_of_mem_lossyFrom plain_newline beyond_between hmem)
termination_by bs.length

/-! ## Sizes -/

theorem utf8Size_eq (x : Char) : x.utf8Size =
    if x.toNat < 0x80 then 1 else if x.toNat < 0x800 then 2 else if x.toNat < 0x10000 then 3
    else 4 := by
  have hval : x.toNat = x.val.toNat := rfl
  unfold Char.utf8Size
  simp only [UInt32.le_iff_toNat_le, UInt32.toNat_ofNatLT, hval]
  split_ifs <;> omega

theorem utf8Size_ofNat {n : Nat} (h : n.isValidChar) : (Char.ofNat n).utf8Size =
    if n < 0x80 then 1 else if n < 0x800 then 2 else if n < 0x10000 then 3 else 4 := by
  rw [utf8Size_eq, toNat_charOfNat, if_pos h]

/-- So many octets of a character have been taken, and whatever completes it is a character of as
many octets as it takes. -/
def State.Taken (k : Nat) : State → Prop
  | .between => k = 0
  | .inside owed low high value => k + owed < 4 ∧ 0x80 ≤ low.toNat ∧ high.toNat ≤ 0xBF ∧
      ∀ n, (value * 64 + (low.toNat - 0x80)) * 64 ^ owed ≤ n →
        n < (value * 64 + (high.toNat - 0x80) + 1) * 64 ^ owed →
        k + owed + 1 ≤ (Char.ofNat n).utf8Size

theorem taken_of_lead (h : lead b = some s) : s.Taken 1 := by
  unfold lead at h
  simp only [UInt8.le_iff_toNat_le, ← UInt8.toNat_inj] at h
  split_ifs at h <;> obtain rfl := Option.some.inj h <;>
    refine ⟨by decide, by simp, by simp, fun n hlow hhigh => ?_⟩ <;>
    simp at * <;> (rw [utf8Size_ofNat (by omega)]; split_ifs <;> omega)

/-- An octet that is taken either completes a character of no fewer octets, or is one octet more of
a character that is not complete. -/
theorem State.Taken.feed (hs : s.Taken k) (h : s.feed b = some (c, s')) :
    ∃ k', s'.Taken k' ∧ k + 1 ≤ encodedSize c.toList + k' := by
  cases s with
  | between =>
    obtain rfl := hs
    rw [State.feed] at h
    split_ifs at h with hb
    · obtain ⟨rfl, rfl⟩ := Prod.mk.inj (Option.some.inj h)
      exact ⟨0, rfl, by simpa [encodedSize] using Nat.succ_le_of_lt (Char.utf8Size_pos _)⟩
    · obtain ⟨s, hlead, he⟩ := Option.map_eq_some_iff.1 h
      obtain ⟨rfl, rfl⟩ := Prod.mk.inj he
      exact ⟨1, taken_of_lead hlead, Nat.le_add_left _ _⟩
  | inside owed low high value =>
    obtain ⟨hk, hlow, hhigh, hsize⟩ := hs
    unfold State.feed at h
    simp only at h
    split_ifs at h with hb
    rw [UInt8.le_iff_toNat_le, UInt8.le_iff_toNat_le] at hb
    have hmod : b.toNat % 64 = b.toNat - 0x80 := by omega
    rcases owed with _ | owed
    · obtain ⟨rfl, rfl⟩ := Prod.mk.inj (Option.some.inj h)
      have hmade := hsize (value * 64 + b.toNat % 64) (by omega) (by omega)
      exact ⟨0, rfl, by simpa [encodedSize] using hmade⟩
    · obtain ⟨rfl, rfl⟩ := Prod.mk.inj (Option.some.inj h)
      refine ⟨k + 1, ⟨by omega, Nat.le_refl _, Nat.le_refl _, fun n hn hn' => ?_⟩,
        Nat.le_add_left _ _⟩
      -- what can still be completed is part of what could be completed before
      rw [show UInt8.toNat 0x80 = 0x80 from rfl, Nat.sub_self, Nat.add_zero, Nat.mul_assoc,
        ← Nat.pow_succ'] at hn
      have hlast : ∀ m, m * 64 + (UInt8.toNat 0xBF - 0x80) + 1 = (m + 1) * 64 := fun m => by
        rw [show UInt8.toNat 0xBF = 0xBF from rfl]
        omega
      rw [hlast, Nat.mul_assoc, ← Nat.pow_succ'] at hn'
      have hmade := hsize n (Nat.le_trans (Nat.mul_le_mul_right _ (by omega)) hn)
        (Nat.lt_of_lt_of_le hn' (Nat.mul_le_mul_right _ (by omega)))
      omega

theorem length_le_encodedSize : ∀ {bs : Bytes} {s : State} {k : Nat}, s.Taken k →
    k + bs.length ≤ encodedSize (lossyFrom s bs) := by
  have hreplacement : replacement.utf8Size = 3 := rfl
  intro bs
  induction bs with
  | nil =>
    intro s k hs
    cases s with
    | between =>
      obtain rfl := hs
      exact Nat.zero_le _
    | inside owed low high value =>
      have hk := hs.1
      rw [lossyFrom, encodedSize_cons, hreplacement, List.length_nil]
      omega
  | cons b bs ih =>
    have taken : ∀ {s : State} {k : Nat}, s.Taken k → s.feed b ≠ none →
        k + (b :: bs).length ≤ encodedSize (lossyFrom s (b :: bs)) := by
      intro s k hs hfeed
      obtain ⟨⟨c, s'⟩, hf⟩ := Option.ne_none_iff_exists'.1 hfeed
      obtain ⟨k', hs', hle⟩ := hs.feed hf
      have hrest := ih hs'
      rw [lossyFrom_of_feed hf, encodedSize_append, List.length_cons]
      omega
    have between : (b :: bs).length ≤ encodedSize (lossyFrom .between (b :: bs)) := by
      by_cases hf : State.between.feed b = none
      · have hrest := ih (s := .between) (k := 0) rfl
        rw [lossyFrom_of_refused hf, encodedSize_cons, hreplacement, List.length_cons]
        omega
      · simpa using taken (s := .between) (k := 0) rfl hf
    intro s k hs
    by_cases hf : s.feed b = none
    · cases s with
      | between =>
        obtain rfl := hs
        simpa using between
      | inside owed low high value =>
        have hk := hs.1
        rw [lossyFrom_of_refused_inside hf, encodedSize_cons, hreplacement]
        omega
    · exact taken hs hf

/-- Decoding never makes a text shorter. -/
theorem length_le_decodedSize (bs : Bytes) : bs.length ≤ decodedSize bs := by
  rw [decodedSize_eq]
  have h : State.between.Taken 0 := rfl
  simpa using length_le_encodedSize h

end Utf8

/-! ## Lines -/

namespace Place

open Utf8

/-- The place behind a character. -/
def next (p : Place) (x : Char) : Place :=
  if x = '\n' then ⟨p.line + 1, 1⟩ else ⟨p.line, p.column + 1⟩

theorem line_next (p : Place) (x : Char) : (p.next x).line = p.line + [x].count '\n' := by
  unfold next
  split_ifs with h <;> simp [h]

theorem advance_cons (p : Place) (offset : Nat) (x : Char) (cs : List Char) :
    advance p offset (x :: cs) =
      if offset < x.utf8Size then p else advance (p.next x) (offset - x.utf8Size) cs := rfl

theorem line_le_advance : ∀ (p : Place) (offset : Nat) (cs : List Char),
    p.line ≤ (advance p offset cs).line
  | p, _, [] => Nat.le_refl _
  | p, offset, x :: cs => by
    have ih := line_le_advance (p.next x) (offset - x.utf8Size) cs
    rw [line_next] at ih
    rw [advance_cons]
    split_ifs <;> omega

theorem line_advance_le : ∀ (p : Place) (offset : Nat) (cs : List Char),
    (advance p offset cs).line ≤ p.line + cs.count '\n'
  | p, _, [] => Nat.le_refl _
  | p, offset, x :: cs => by
    have ih := line_advance_le (p.next x) (offset - x.utf8Size) cs
    rw [line_next] at ih
    rw [advance_cons, ← List.singleton_append, List.count_append]
    split_ifs <;> omega

/-- The line goes beyond a newline where the whole text up to and with this newline comes before
the offset. -/
theorem lt_line_advance_iff (ds : List Char) : ∀ (p : Place) (offset : Nat) (cs : List Char),
    p.line + cs.count '\n' < (advance p offset (cs ++ '\n' :: ds)).line ↔
      encodedSize cs + 1 ≤ offset
  | p, offset, [] => by
    have hnewline : '\n'.utf8Size = 1 := rfl
    have hline := line_le_advance (p.next '\n') (offset - 1) ds
    rw [line_next, List.count_singleton_self] at hline
    rw [List.nil_append, advance_cons, hnewline, List.count_nil, encodedSize_nil]
    split_ifs <;> omega
  | p, offset, x :: cs => by
    have ih := lt_line_advance_iff ds (p.next x) (offset - x.utf8Size) cs
    rw [line_next] at ih
    rw [List.cons_append, advance_cons, encodedSize_cons, ← List.singleton_append,
      List.count_append]
    split_ifs <;> omega

/-- The line of an offset into the text is beyond a newline of the octets where the text of all
octets up to this newline comes before the offset. -/
theorem lt_line_ofOffset_iff (a r : Bytes) (offset : Nat) :
    a.count 10 + 1 < (ofOffset (lossy (a ++ 10 :: r)) offset).line ↔
      decodedSize (a ++ [10]) ≤ offset := by
  have hsize : decodedSize (a ++ [10]) = encodedSize (lossyFrom .between a) + 1 := by
    rw [decodedSize_eq, lossyFrom_append_newline, encodedSize_append]
    rfl
  rw [hsize, ← count_newline_lossyFrom, Nat.add_comm, ofOffset, lossy, String.toList_ofList,
    lossyFrom_append_newline]
  exact lt_line_advance_iff _ ⟨1, 1⟩ offset _

theorem line_ofOffset_bounds (source : Bytes) (offset : Nat) :
    1 ≤ (ofOffset (lossy source) offset).line ∧
      (ofOffset (lossy source) offset).line ≤ source.count 10 + 1 := by
  rw [ofOffset, lossy, String.toList_ofList]
  refine ⟨line_le_advance ⟨1, 1⟩ offset _, ?_⟩
  rw [← count_newline_lossyFrom, Nat.add_comm]
  exact line_advance_le ⟨1, 1⟩ offset _

variable {source : Bytes} {offset : Nat}

/-- An offset into octets that is looked up in their text is not in a later line. -/
theorem line_ofOffset_le (h : offset ≤ source.length) :
    (ofOffset (lossy source) offset).line ≤ source.line offset := by
  by_contra hlt
  rw [Nat.not_le, Bytes.line] at hlt
  have hcount : source.count 10 =
      (source.take offset).count 10 + (source.drop offset).count 10 := by
    rw [← List.count_append, List.take_append_drop]
  have hbounds := (line_ofOffset_bounds source offset).2
  have hmem : 10 ∈ source.drop offset := List.count_pos_iff.1 (by omega)
  obtain ⟨q, r, hdrop, hq⟩ := List.eq_append_cons_of_mem hmem
  have hsource : source = (source.take offset ++ q) ++ 10 :: r := by
    rw [List.append_assoc, ← hdrop, List.take_append_drop]
  have hbeyond := lt_line_ofOffset_iff (source.take offset ++ q) r offset
  rw [← hsource, List.count_append, List.count_eq_zero_of_not_mem hq] at hbeyond
  have hle := hbeyond.1 (by omega)
  have hsize := length_le_decodedSize (source.take offset ++ q ++ [10])
  simp only [List.length_append, List.length_take, List.length_singleton] at hsize
  omega

/-- It is in the same line where no newline before the offset comes behind it in the text. -/
theorem line_ofOffset_eq_iff (h : offset ≤ source.length) :
    (ofOffset (lossy source) offset).line = source.line offset ↔
      ∀ a r, source = a ++ 10 :: r → a.length < offset → decodedSize (a ++ [10]) ≤ offset := by
  have hle := line_ofOffset_le h
  constructor
  · rintro heq a r rfl hlt
    refine (lt_line_ofOffset_iff a r offset).1 ?_
    rw [heq, Bytes.line, List.take_append, List.take_of_length_le (Nat.le_of_lt hlt),
      List.count_append, ← Nat.sub_add_cancel (Nat.sub_pos_of_lt hlt), List.take_succ_cons,
      List.count_cons_self]
    omega
  · intro hall
    by_cases hnone : 10 ∈ source.take offset
    · obtain ⟨q, a, hrev, hq⟩ := List.eq_append_cons_of_mem (List.mem_reverse.2 hnone)
      have htake : source.take offset = a.reverse ++ 10 :: q.reverse := by
        rw [← List.reverse_reverse (source.take offset), hrev]
        simp
      have hsource : source = a.reverse ++ 10 :: (q.reverse ++ source.drop offset) := by
        rw [← List.cons_append, ← List.append_assoc, ← htake, List.take_append_drop]
      have hlength := congrArg List.length htake
      simp only [List.length_take, List.length_append, List.length_cons] at hlength
      have hlast := lt_line_ofOffset_iff a.reverse (q.reverse ++ source.drop offset) offset
      rw [← hsource] at hlast
      have hlast := hlast.2 (hall _ _ hsource (by omega))
      rw [Bytes.line, htake, List.count_append, List.count_cons_self,
        List.count_eq_zero_of_not_mem (mt List.mem_reverse.1 hq)] at hle ⊢
      omega
    · rw [Bytes.line, List.count_eq_zero_of_not_mem hnone] at hle ⊢
      have hbounds := (line_ofOffset_bounds source offset).1
      omega

/-- What is well formed is decoded to as many octets, so that no newline moves. -/
theorem line_ofOffset_ofString (text : String) (h : offset ≤ (Bytes.ofString text).length) :
    (ofOffset (lossy (.ofString text)) offset).line = (Bytes.ofString text).line offset := by
  refine (line_ofOffset_eq_iff h).2 fun a r htext hlt => ?_
  have hwhole : decodedSize (a ++ 10 :: r) = a.length + 1 + r.length := by
    rw [← htext, decodedSize, lossy_ofString, htext, List.length_append, List.length_cons]
    omega
  have hsplit : decodedSize (a ++ 10 :: r) = decodedSize (a ++ [10]) + decodedSize r := by
    simp only [decodedSize_eq, lossyFrom_append_newline, encodedSize_append, encodedSize_cons]
    simp [lossyFrom, encodedSize]
    omega
  have hr := length_le_decodedSize r
  omega

end Place

end Stencil
