import Stencil.Proofs.LossyText

/-!
# Well-formed texts

Octets are decoded if they are the UTF-8 octets of a text, and give that text (`decode_eq_ok_iff`).
Otherwise they are refused where their longest well-formed beginning ends (`decode_eq_error_iff`).
Lossy decoding gives back every text as well, but other octets may be read as the same text: exactly
where the text has a replacement character (`reads_alone_iff`), which stands for itself or for an
ill-formed piece.
-/

namespace Stencil

namespace Utf8

variable {b low high : UInt8} {bs p : Bytes} {c : Option Char} {s s' : State} {x : Char}
  {cs : List Char} {owed value mark pos n : Nat}

/-! ## Characters are completed by their own octets alone -/

/-- The octets `p` of a character have been taken, and whatever completes it makes up, with them,
the octets of the character that is read. -/
def Spells : (owed : Nat) → (low high : UInt8) → (value : Nat) → (p : Bytes) → Prop
  | 0, low, high, value, p => ∀ b, low ≤ b → b ≤ high →
    p ++ [b] = String.utf8EncodeChar (Char.ofNat (value * 64 + b.toNat % 64))
  | owed + 1, low, high, value, p => ∀ b, low ≤ b → b ≤ high →
    Spells owed 0x80 0xBF (value * 64 + b.toNat % 64) (p ++ [b])

/-- The octets `p` of the character in progress have been taken. -/
def State.Holds (p : Bytes) : State → Prop
  | .between => p = []
  | .inside owed low high value => Spells owed low high value p

theorem holds_between : State.between.Holds [] := rfl

theorem utf8EncodeChar_ofNat (h : n.isValidChar) : String.utf8EncodeChar (Char.ofNat n) =
    if n ≤ 0x7F then [.ofNat n]
    else if n ≤ 0x7FF then [.ofNat (n / 64 % 32 + 0xC0), .ofNat (n % 64 + 0x80)]
    else if n ≤ 0xFFFF then
      [.ofNat (n / 4096 % 16 + 0xE0), .ofNat (n / 64 % 64 + 0x80), .ofNat (n % 64 + 0x80)]
    else
      [.ofNat (n / 262144 % 8 + 0xF0), .ofNat (n / 4096 % 64 + 0x80), .ofNat (n / 64 % 64 + 0x80),
        .ofNat (n % 64 + 0x80)] := by
  have hval : (Char.ofNat n).val.toNat = n := by
    rw [show (Char.ofNat n).val.toNat = (Char.ofNat n).toNat from rfl, toNat_charOfNat, if_pos h]
  unfold String.utf8EncodeChar
  rw [hval]

theorem holds_of_lead (h : lead b = some s) : s.Holds [b] := by
  unfold lead at h
  simp only [UInt8.le_iff_toNat_le, ← UInt8.toNat_inj] at h
  -- in each of the ranges of `lead`, the number read is valid and has the octets that were taken
  split_ifs at h <;> obtain rfl := Option.some.inj h <;>
    simp only [State.Holds, Spells, UInt8.le_iff_toNat_le] <;> intros <;> simp at * <;>
    (rw [utf8EncodeChar_ofNat (by unfold Nat.isValidChar; omega)]; split_ifs <;>
      simp [← UInt8.toNat_inj] <;> omega)

/-- An octet that is taken completes the octets of a character, or is one more of them. -/
theorem State.Holds.feed (hs : s.Holds p) (h : s.feed b = some (c, s')) :
    (∃ x, c = some x ∧ s' = .between ∧ p ++ [b] = String.utf8EncodeChar x) ∨
      (c = none ∧ s'.Holds (p ++ [b])) := by
  cases s with
  | between =>
    obtain rfl := hs
    rcases feed_between h with ⟨hb, rfl, rfl⟩ | ⟨rfl, hne, -⟩
    · refine .inl ⟨_, rfl, rfl, ?_⟩
      rw [utf8EncodeChar_ofNat (.inl (by omega)), if_pos (by omega), UInt8.ofNat_toNat]
      rfl
    · rw [State.feed] at h
      split_ifs at h with hb
      · cases h
      · obtain ⟨s, hlead, he⟩ := Option.map_eq_some_iff.1 h
        obtain ⟨-, rfl⟩ := Prod.mk.inj he
        exact .inr ⟨rfl, holds_of_lead hlead⟩
  | inside owed low high value =>
    unfold State.feed at h
    simp only at h
    split_ifs at h with hb
    rcases owed with _ | owed
    · obtain ⟨rfl, rfl⟩ := Prod.mk.inj (Option.some.inj h)
      exact .inl ⟨_, rfl, rfl, hs b hb.1 hb.2⟩
    · obtain ⟨rfl, rfl⟩ := Prod.mk.inj (Option.some.inj h)
      exact .inr ⟨rfl, hs b hb.1 hb.2⟩

/-! ## Strict decoding -/

theorem encode_of_decodeFrom : ∀ {bs : Bytes} {s : State} {p : Bytes} {mark pos : Nat}
    {cs : List Char}, s.Holds p → decodeFrom s mark pos bs = .ok cs →
      p ++ bs = cs.flatMap String.utf8EncodeChar
  | [], s, p, mark, pos, cs, hs, h => by
    cases s with
    | between =>
      obtain rfl := hs
      obtain rfl := Except.ok.inj h
      rfl
    | inside => cases h
  | b :: bs, s, p, mark, pos, cs, hs, h => by
    rw [decodeFrom] at h
    rcases hf : s.feed b with _ | ⟨c, s'⟩ <;> rw [hf] at h
    · cases h
    · rcases hs.feed hf with ⟨x, rfl, rfl, hx⟩ | ⟨rfl, hs'⟩
      · rcases hd : decodeFrom .between (pos + 1) (pos + 1) bs with e | ds <;>
          simp only [hd] at h <;> cases h
        have hrest := encode_of_decodeFrom holds_between hd
        rw [List.flatMap_cons, ← hx, ← hrest, List.append_assoc]
        rfl
      · simpa using encode_of_decodeFrom hs' h

theorem State.Completes.decodeFrom_eq (h : s.Completes p x) (bs : Bytes) (mark pos : Nat) :
    decodeFrom s mark pos (p ++ bs) =
      (decodeFrom .between (pos + p.length) (pos + p.length) bs).map (x :: ·) := by
  induction h generalizing pos with
  | last hf =>
    rw [List.singleton_append, decodeFrom, hf]
    rfl
  | next hf _ ih =>
    rw [List.cons_append, decodeFrom, hf]
    simp only
    rw [ih, List.length_cons, Nat.add_right_comm, Nat.add_assoc]

/-- What is well formed is read to its end, and what follows it is read from there on. -/
theorem decodeFrom_append (bs : Bytes) : ∀ (cs : List Char) (pos : Nat),
    decodeFrom .between pos pos (cs.flatMap String.utf8EncodeChar ++ bs) =
      let n := pos + (cs.flatMap String.utf8EncodeChar).length
      (decodeFrom .between n n bs).map (cs ++ ·)
  | [], pos => by
    simp only [List.flatMap_nil, List.nil_append, List.length_nil, Nat.add_zero]
    rcases decodeFrom .between pos pos bs <;> rfl
  | x :: cs, pos => by
    rw [List.flatMap_cons, List.append_assoc, (completes_utf8EncodeChar x).decodeFrom_eq,
      decodeFrom_append bs cs, List.length_append, Nat.add_assoc]
    simp only
    rcases decodeFrom .between _ _ bs <;> rfl

/-- Octets are decoded exactly if they are those of a text, and give that text. -/
theorem decode_eq_ok_iff {t : String} : decode bs = .ok t ↔ bs = .ofString t := by
  rw [← String.ofList_toList (s := t), Bytes.ofString_ofList, decode]
  constructor
  · intro h
    rcases hd : decodeFrom .between 0 0 bs with e | cs <;> rw [hd] at h
    · cases h
    · obtain rfl := String.ofList_injective (Except.ok.inj h)
      simpa using encode_of_decodeFrom holds_between hd
  · rintro rfl
    rw [← List.append_nil (t.toList.flatMap _), decodeFrom_append]
    simp [decodeFrom, Except.map]

/-- The octets are those of a text. -/
def WellFormed (bs : Bytes) : Prop := ∃ t : String, bs = .ofString t

theorem wellFormed_iff : WellFormed bs ↔ ∃ cs : List Char, bs = cs.flatMap String.utf8EncodeChar :=
  ⟨fun ⟨t, ht⟩ => ⟨t.toList, by rw [ht, ← Bytes.ofString_ofList, String.ofList_toList]⟩,
    fun ⟨cs, hcs⟩ => ⟨String.ofList cs, by rw [hcs, Bytes.ofString_ofList]⟩⟩

theorem eq_error_of_map {α β : Type} {f : α → β} {k : Nat} : ∀ {x : Except Nat α},
    x.map f = .error k → x = .error k
  | .error _, h => by rw [Except.error.inj h]

/-- Decoding that fails has read whole characters up to the offset that it tells. -/
theorem exists_of_decodeFrom_eq_error : ∀ {bs : Bytes} {s : State} {p : Bytes} {mark k : Nat},
    s.Holds p → decodeFrom s mark (mark + p.length) bs = .error k →
      ∃ (cs : List Char) (r : Bytes), p ++ bs = cs.flatMap String.utf8EncodeChar ++ r ∧
        k = mark + (cs.flatMap String.utf8EncodeChar).length
  | [], s, p, mark, k, hs, h => by
    cases s with
    | between => cases h
    | inside =>
      obtain rfl := Except.error.inj h
      exact ⟨[], p, by simp, rfl⟩
  | b :: bs, s, p, mark, k, hs, h => by
    rw [decodeFrom] at h
    rcases hf : s.feed b with _ | ⟨c, s'⟩ <;> rw [hf] at h
    · obtain rfl := Except.error.inj h
      exact ⟨[], p ++ b :: bs, rfl, rfl⟩
    · rcases hs.feed hf with ⟨x, rfl, rfl, hx⟩ | ⟨rfl, hs'⟩
      · -- a character has ended, and the next one begins behind it
        have hlen : mark + p.length + 1 = mark + (String.utf8EncodeChar x).length := by
          rw [← hx, List.length_append, List.length_singleton, Nat.add_assoc]
        simp only [hlen] at h
        obtain ⟨cs, r, hbs, rfl⟩ := exists_of_decodeFrom_eq_error holds_between (eq_error_of_map h)
        refine ⟨x :: cs, r, ?_, ?_⟩
        · rw [List.flatMap_cons, ← hx, List.append_assoc, ← hbs, List.append_assoc]
          rfl
        · rw [List.flatMap_cons, List.length_append, Nat.add_assoc]
      · have hlen : mark + p.length + 1 = mark + (p ++ [b]).length := by
          rw [List.length_append, List.length_singleton, Nat.add_assoc]
        simp only [hlen] at h
        obtain ⟨cs, r, hbs, hk⟩ := exists_of_decodeFrom_eq_error hs' h
        exact ⟨cs, r, by simpa using hbs, hk⟩

/-- Decoding fails behind the longest beginning that is well formed. -/
theorem longest_of_decode_eq_error {k : Nat} (h : decode bs = .error k) :
    WellFormed (bs.take k) ∧ ∀ w, w <+: bs → WellFormed w → w.length ≤ k := by
  have hd : decodeFrom .between 0 0 bs = .error k := eq_error_of_map h
  constructor
  · obtain ⟨cs, r, hbs, hk⟩ := exists_of_decodeFrom_eq_error holds_between hd
    rw [List.nil_append] at hbs
    rw [Nat.zero_add] at hk
    exact wellFormed_iff.2 ⟨cs, by rw [hbs, hk, List.take_left]⟩
  · rintro w ⟨r, rfl⟩ hw
    obtain ⟨cs, rfl⟩ := wellFormed_iff.1 hw
    rw [decodeFrom_append, Nat.zero_add] at hd
    obtain ⟨ds, r', -, rfl⟩ := exists_of_decodeFrom_eq_error holds_between (eq_error_of_map hd)
    exact Nat.le_add_right ..

/-- Octets that are not well formed are refused behind their longest well-formed beginning. -/
theorem decode_eq_error_iff {k : Nat} : decode bs = .error k ↔
    ¬ WellFormed bs ∧ WellFormed (bs.take k) ∧ ∀ w, w <+: bs → WellFormed w → w.length ≤ k := by
  constructor
  · intro h
    refine ⟨?_, longest_of_decode_eq_error h⟩
    rintro ⟨t, ht⟩
    rw [decode_eq_ok_iff.2 ht] at h
    cases h
  · rintro ⟨hbs, hfront, hlongest⟩
    rcases hd : decode bs with e | t
    · obtain ⟨hfront', hlongest'⟩ := longest_of_decode_eq_error hd
      have shorter : ∀ {n : Nat}, WellFormed (bs.take n) → n < bs.length := fun {n} hn =>
        Nat.lt_of_not_le fun hle => hbs (List.take_of_length_le hle ▸ hn)
      have hle := hlongest _ (List.take_prefix e bs) hfront'
      have hge := hlongest' _ (List.take_prefix k bs) hfront
      rw [List.length_take, Nat.min_eq_left (Nat.le_of_lt (shorter hfront'))] at hle
      rw [List.length_take, Nat.min_eq_left (Nat.le_of_lt (shorter hfront))] at hge
      rw [Nat.le_antisymm hle hge]
    · exact absurd ⟨t, decode_eq_ok_iff.1 hd⟩ hbs

/-! ## Lossy decoding -/

/-- What is read without replacing anything is what the octets spell. -/
theorem encode_of_lossyFrom : ∀ {bs : Bytes} {s : State} {p : Bytes}, s.Holds p →
    replacement ∉ lossyFrom s bs → p ++ bs = (lossyFrom s bs).flatMap String.utf8EncodeChar
  | [], .between, p, hs, _ => by
    obtain rfl := hs
    rfl
  | [], .inside .., p, hs, h => by simp [lossyFrom] at h
  | b :: bs, s, p, hs, h => by
    rcases hf : s.feed b with _ | ⟨c, s'⟩
    · cases s with
      | between => simp [lossyFrom_of_refused hf] at h
      | inside => simp [lossyFrom_of_refused_inside hf] at h
    · rw [lossyFrom_of_feed hf] at h ⊢
      rcases hs.feed hf with ⟨x, rfl, rfl, hx⟩ | ⟨rfl, hs'⟩
      · have hrest := encode_of_lossyFrom holds_between fun hmem => h (List.mem_append_right _ hmem)
        rw [Option.toList_some, List.singleton_append, List.flatMap_cons, ← hx, ← hrest,
          List.append_assoc]
        rfl
      · simpa using encode_of_lossyFrom hs' h

/-- Octets that are read as a text without a replacement character are that text's own. -/
theorem eq_ofString_of_lossy {t : String} (ht : replacement ∉ t.toList) (h : lossy bs = t) :
    bs = .ofString t := by
  subst h
  rw [lossy, String.toList_ofList] at ht
  rw [lossy, Bytes.ofString_ofList]
  simpa using encode_of_lossyFrom holds_between ht

/-- A replacement character is also read from an octet that no character has. -/
theorem lossy_ill_formed (a r : List Char) :
    lossy (a.flatMap String.utf8EncodeChar ++ 0xFF :: r.flatMap String.utf8EncodeChar) =
      String.ofList (a ++ replacement :: r) := by
  rw [lossy]
  congr 1
  induction a with
  | nil =>
    rw [List.flatMap_nil, List.nil_append, List.nil_append, lossyFrom_of_refused (by decide),
      ← Bytes.ofString_ofList, lossyFrom_ofString, String.toList_ofList]
  | cons x a ih =>
    rw [List.flatMap_cons, List.append_assoc, lossyFrom_utf8EncodeChar, ih, List.cons_append]

/-- A text is read from its own octets alone if and only if it has no replacement character. -/
theorem reads_alone_iff (t : String) :
    (∀ bs, lossy bs = t → bs = .ofString t) ↔ replacement ∉ t.toList := by
  refine ⟨fun h hmem => ?_, fun ht bs h => eq_ofString_of_lossy ht h⟩
  obtain ⟨a, r, ht⟩ := List.append_of_mem hmem
  have htext : t = String.ofList (a ++ replacement :: r) := by
    rw [← ht, String.ofList_toList]
  have hother := h _ ((lossy_ill_formed a r).trans htext.symm)
  rw [htext, Bytes.ofString_ofList, List.flatMap_append, List.flatMap_cons,
    List.append_cancel_left_eq] at hother
  -- the octet `FF` is not the first one of a replacement character
  exact absurd (List.cons.inj hother).1 (by decide)

end Utf8

end Stencil
