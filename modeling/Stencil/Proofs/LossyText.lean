import Mathlib.Algebra.Group.Nat.Defs
import Mathlib.Tactic.SplitIfs
import Stencil.Text.Utf8

/-!
# Lossy decoding and encoding

What is encoded is decoded to itself (`lossy_ofString`). An ASCII character other than zero is never
read from a longer sequence, nor from an ill-formed one: the machine inside a character has seen a
value that is too large (`State.Beyond`). So a text that is decoded lossily has such characters
where the octets have them (`exists_of_lossyFrom`, `mem_of_mem_lossyFrom`).
-/

namespace Stencil

namespace Bytes

theorem ofString_append (s t : String) : ofString (s ++ t) = ofString s ++ ofString t := by
  simp [ofString]

theorem ofString_ofList (cs : List Char) :
    ofString (String.ofList cs) = cs.flatMap String.utf8EncodeChar := by
  simp [ofString, List.utf8Encode]

end Bytes

namespace Utf8

variable {b : UInt8} {bs : Bytes} {c : Option Char} {s s' : State} {x : Char} {cs : List Char}
  {owed value : Nat} {low high : UInt8}

/-! ## Steps -/

theorem lossyFrom_of_feed (h : s.feed b = some (c, s')) (bs : Bytes) :
    lossyFrom s (b :: bs) = c.toList ++ lossyFrom s' bs := by
  cases s <;> rw [lossyFrom, h]

theorem lossyFrom_of_refused (h : State.between.feed b = none) (bs : Bytes) :
    lossyFrom .between (b :: bs) = replacement :: lossyFrom .between bs := by
  rw [lossyFrom, h]

/-- A refused octet is read anew from between characters. -/
theorem lossyFrom_of_refused_inside (h : (State.inside owed low high value).feed b = none)
    (bs : Bytes) : lossyFrom (.inside owed low high value) (b :: bs) =
      replacement :: lossyFrom .between (b :: bs) := by
  simp only [lossyFrom, h]

/-! ## Decoding what is encoded -/

theorem feed_ascii : ∀ n < 128,
    State.between.feed (.ofNat n) = some (some (Char.ofNat n), .between) := by
  decide

theorem feed_lead_two : ∀ n < 32, 2 ≤ n →
    State.between.feed (.ofNat (n + 0xC0)) = some (none, .inside 0 0x80 0xBF n) := by
  decide

theorem feed_lead_three : ∀ n < 16, State.between.feed (.ofNat (n + 0xE0)) =
    some (none, .inside 1 (if n = 0 then 0xA0 else 0x80) (if n = 13 then 0x9F else 0xBF) n) := by
  decide

theorem feed_lead_four : ∀ n < 5, State.between.feed (.ofNat (n + 0xF0)) =
    some (none, .inside 2 (if n = 0 then 0x90 else 0x80) (if n = 4 then 0x8F else 0xBF) n) := by
  decide

theorem feed_tail {m : Nat} (hm : m < 64) (hlow : low.toNat ≤ m + 0x80)
    (hhigh : m + 0x80 ≤ high.toNat) : (State.inside owed low high value).feed (.ofNat (m + 0x80)) =
      match owed with
      | 0 => some (some (Char.ofNat (value * 64 + m)), .between)
      | owed + 1 => some (none, .inside owed 0x80 0xBF (value * 64 + m)) := by
  have hnat : (UInt8.ofNat (m + 0x80)).toNat = m + 0x80 :=
    UInt8.toNat_ofNat_of_lt' (Nat.lt_trans (Nat.add_lt_add_right hm 0x80) (by decide))
  have hle : low ≤ .ofNat (m + 0x80) ∧ .ofNat (m + 0x80) ≤ high := by
    rw [UInt8.le_iff_toNat_le, UInt8.le_iff_toNat_le, hnat]
    exact ⟨hlow, hhigh⟩
  have hmod : (m + 0x80) % 64 = m := by omega
  cases owed with
  | zero => simp only [State.feed.eq_def, if_pos hle, hnat, hmod]
  | succ owed => simp only [State.feed.eq_def, if_pos hle, hnat, hmod]

/-- From this state on, the octets complete the character with the last of them, and none is
refused. -/
inductive State.Completes : State → Bytes → Char → Prop
  | last {s : State} {b : UInt8} {x : Char} : s.feed b = some (some x, .between) →
    Completes s [b] x
  | next {s s' : State} {b : UInt8} {bs : Bytes} {x : Char} : s.feed b = some (none, s') →
    Completes s' bs x → Completes s (b :: bs) x

theorem State.Completes.lossyFrom_eq {p : Bytes} (h : s.Completes p x) (bs : Bytes) :
    lossyFrom s (p ++ bs) = x :: lossyFrom .between bs := by
  induction h with
  | last hf =>
    rw [List.singleton_append, lossyFrom_of_feed hf]
    rfl
  | next hf _ ih =>
    rw [List.cons_append, lossyFrom_of_feed hf, ih]
    rfl

theorem completes_utf8EncodeChar (x : Char) :
    State.between.Completes (String.utf8EncodeChar x) x := by
  have hx : Char.ofNat x.val.toNat = x := Char.ofNat_toNat x
  have hvalid : x.val.toNat < 0xD800 ∨ 0xDFFF < x.val.toNat ∧ x.val.toNat < 0x110000 := x.valid
  unfold String.utf8EncodeChar
  generalize x.val.toNat = v at hx hvalid
  simp only
  have htail : ∀ m, m % 64 < 64 := fun m => Nat.mod_lt m (by decide)
  split_ifs with h1 h2 h3
  · exact .last (by rw [feed_ascii v (by omega), hx])
  · have hlead : v / 64 % 32 = v / 64 := Nat.mod_eq_of_lt (by omega)
    rw [hlead]
    refine .next (feed_lead_two _ (by omega) (by omega)) (.last ?_)
    rw [feed_tail (htail v) (by simp) (by simp; omega),
      show v / 64 * 64 + v % 64 = v by omega, hx]
  · have hlead : v / 4096 % 16 = v / 4096 := Nat.mod_eq_of_lt (by omega)
    have hlow : (if v / 4096 = 0 then 0xA0 else 0x80 : UInt8).toNat ≤ v / 64 % 64 + 0x80 := by
      split_ifs
      · simp
        omega
      · simp
    have hhigh : v / 64 % 64 + 0x80 ≤ (if v / 4096 = 13 then 0x9F else 0xBF : UInt8).toNat := by
      split_ifs <;> (simp; omega)
    rw [hlead]
    refine .next (feed_lead_three _ (by omega))
      (.next (feed_tail (htail (v / 64)) hlow hhigh) (.last ?_))
    rw [feed_tail (htail v) (by simp) (by simp; omega),
      show (v / 4096 * 64 + v / 64 % 64) * 64 + v % 64 = v by omega, hx]
  · have hlead : v / 262144 % 8 = v / 262144 := Nat.mod_eq_of_lt (by omega)
    have hlow : (if v / 262144 = 0 then 0x90 else 0x80 : UInt8).toNat ≤ v / 4096 % 64 + 0x80 := by
      split_ifs
      · simp
        omega
      · simp
    have hhigh : v / 4096 % 64 + 0x80 ≤ (if v / 262144 = 4 then 0x8F else 0xBF : UInt8).toNat := by
      split_ifs <;> (simp; omega)
    rw [hlead]
    refine .next (feed_lead_four _ (by omega)) (.next (feed_tail (htail (v / 4096)) hlow hhigh)
      (.next (feed_tail (htail (v / 64)) (by simp) (by simp; omega)) (.last ?_)))
    rw [feed_tail (htail v) (by simp) (by simp; omega),
      show ((v / 262144 * 64 + v / 4096 % 64) * 64 + v / 64 % 64) * 64 + v % 64 = v by omega, hx]

theorem lossyFrom_utf8EncodeChar (x : Char) (bs : Bytes) :
    lossyFrom .between (String.utf8EncodeChar x ++ bs) = x :: lossyFrom .between bs :=
  (completes_utf8EncodeChar x).lossyFrom_eq bs

theorem lossyFrom_ofString (s : String) : lossyFrom .between (Bytes.ofString s) = s.toList := by
  rw [← String.ofList_toList (s := s), Bytes.ofString_ofList, String.toList_ofList]
  induction s.toList with
  | nil => rfl
  | cons x cs ih => rw [List.flatMap_cons, lossyFrom_utf8EncodeChar, ih]

theorem lossy_ofString (s : String) : lossy (Bytes.ofString s) = s := by
  rw [lossy, lossyFrom_ofString, String.ofList_toList]

/-! ## ASCII characters -/

/-- The octet is the whole of an ASCII character, which is not zero. -/
def Plain (b : UInt8) : Prop := 0 < b.toNat ∧ b.toNat < 0x80

/-- Inside a character, the value of whatever completes it is too large for an ASCII character. -/
def State.Beyond : State → Prop
  | .between => True
  | .inside owed low high value => 0x80 ≤ low.toNat ∧ high.toNat ≤ 0xBF ∧
      0x80 ≤ (value * 64 + (low.toNat - 0x80)) * 64 ^ owed

theorem toNat_charOfNat (n : Nat) : (Char.ofNat n).toNat = if n.isValidChar then n else 0 := by
  by_cases h : n.isValidChar
  · rw [if_pos h, Char.ofNat, dif_pos h]
    rfl
  · rw [if_neg h, Char.ofNat, dif_neg h]
    rfl

theorem beyond_between : State.between.Beyond := trivial

theorem ofNat_ne_of_plain {n : Nat} (hb : Plain b) (hn : 0x80 ≤ n) :
    Char.ofNat n ≠ Char.ofNat b.toNat := by
  intro h
  have h := congrArg Char.toNat h
  rw [toNat_charOfNat, toNat_charOfNat] at h
  have hvalid : b.toNat.isValidChar := .inl (by have := hb.2; omega)
  rw [if_pos hvalid] at h
  have := hb.1
  have := hb.2
  split_ifs at h <;> omega

theorem eq_of_charOfNat_eq {a : UInt8} (ha : a.toNat < 0x80) (hb : b.toNat < 0x80)
    (h : Char.ofNat a.toNat = Char.ofNat b.toNat) : a = b := by
  have h := congrArg Char.toNat h
  rw [toNat_charOfNat, toNat_charOfNat, if_pos (.inl (by omega)), if_pos (.inl (by omega))] at h
  exact UInt8.toNat_inj.1 h

theorem replacement_ne_of_plain (hb : Plain b) : replacement ≠ Char.ofNat b.toNat :=
  ofNat_ne_of_plain (n := 0xFFFD) hb (by decide)

theorem beyond_of_lead (h : lead b = some s) : s ≠ .between ∧ s.Beyond := by
  unfold lead at h
  simp only [UInt8.le_iff_toNat_le, ← UInt8.toNat_inj] at h
  split_ifs at h <;> obtain rfl := Option.some.inj h <;> simp [State.Beyond] at * <;> omega

theorem feed_between (h : State.between.feed b = some (c, s)) :
    (b.toNat < 0x80 ∧ c = some (Char.ofNat b.toNat) ∧ s = .between) ∨
      (c = none ∧ s ≠ .between ∧ s.Beyond) := by
  rw [State.feed] at h
  split_ifs at h with hb
  · obtain ⟨rfl, rfl⟩ := Prod.mk.inj (Option.some.inj h)
    exact .inl ⟨UInt8.lt_iff_toNat_lt.1 hb, rfl, rfl⟩
  · obtain ⟨s, hs, he⟩ := Option.map_eq_some_iff.1 h
    obtain ⟨rfl, rfl⟩ := Prod.mk.inj he
    exact .inr ⟨rfl, beyond_of_lead hs⟩

theorem State.Beyond.feed (hs : (State.inside owed low high value).Beyond)
    (h : (State.inside owed low high value).feed b = some (c, s)) :
    (∃ n, 0x80 ≤ n ∧ c = some (Char.ofNat n) ∧ s = .between) ∨
      (c = none ∧ s ≠ .between ∧ s.Beyond) := by
  obtain ⟨hlow, hhigh, hvalue⟩ := hs
  unfold State.feed at h
  simp only at h
  split_ifs at h with hb
  rw [UInt8.le_iff_toNat_le, UInt8.le_iff_toNat_le] at hb
  have hnext : value * 64 + (low.toNat - 0x80) ≤ value * 64 + b.toNat % 64 := by omega
  rcases owed with _ | owed
  · obtain ⟨rfl, rfl⟩ := Prod.mk.inj (Option.some.inj h)
    exact .inl ⟨_, by omega, rfl, rfl⟩
  · obtain ⟨rfl, rfl⟩ := Prod.mk.inj (Option.some.inj h)
    refine .inr ⟨rfl, by simp, Nat.le_refl _, Nat.le_refl _, ?_⟩
    calc 0x80 ≤ (value * 64 + (low.toNat - 0x80)) * 64 ^ (owed + 1) := hvalue
      _ ≤ (value * 64 + b.toNat % 64) * 64 ^ (owed + 1) := Nat.mul_le_mul_right _ hnext
      _ = _ := by rw [Nat.pow_succ', ← Nat.mul_assoc]; rfl

/-- The first character read is an ASCII character only where the first octet is. -/
theorem exists_of_lossyFrom (hb : Plain b) : ∀ {bs : Bytes} {s : State}, s.Beyond →
    lossyFrom s bs = Char.ofNat b.toNat :: cs →
      s = .between ∧ ∃ rest, bs = b :: rest ∧ lossyFrom .between rest = cs
  | [], .between, _, h => by cases h
  | [], .inside .., _, h => absurd (List.cons.inj h).1 (replacement_ne_of_plain hb)
  | a :: bs, .between, _, h => by
    rcases hf : State.between.feed a with _ | ⟨c, s'⟩
    · rw [lossyFrom_of_refused hf] at h
      exact absurd (List.cons.inj h).1 (replacement_ne_of_plain hb)
    · rw [lossyFrom_of_feed hf] at h
      rcases feed_between hf with ⟨ha, rfl, rfl⟩ | ⟨rfl, hne, hs⟩
      · obtain ⟨heq, hrest⟩ := List.cons.inj h
        exact ⟨rfl, bs, by rw [eq_of_charOfNat_eq ha hb.2 heq], hrest⟩
      · exact absurd (exists_of_lossyFrom hb hs h).1 hne
  | a :: bs, .inside owed low high value, hs, h => by
    rcases hf : (State.inside owed low high value).feed a with _ | ⟨c, s'⟩
    · rw [lossyFrom_of_refused_inside hf] at h
      exact absurd (List.cons.inj h).1 (replacement_ne_of_plain hb)
    · rw [lossyFrom_of_feed hf] at h
      rcases hs.feed hf with ⟨n, hn, rfl, rfl⟩ | ⟨rfl, hne, hs'⟩
      · exact absurd (List.cons.inj h).1 (ofNat_ne_of_plain hb hn)
      · exact absurd (exists_of_lossyFrom hb hs' h).1 hne

/-- An ASCII character is read only where the octets have it. -/
theorem mem_of_mem_lossyFrom (hb : Plain b) : ∀ {bs : Bytes} {s : State}, s.Beyond →
    Char.ofNat b.toNat ∈ lossyFrom s bs → b ∈ bs := by
  intro bs
  induction bs with
  | nil =>
    intro s _ h
    cases s with
    | between => cases h
    | inside => exact absurd (List.mem_singleton.1 h).symm (replacement_ne_of_plain hb)
  | cons a bs ih =>
    have between : Char.ofNat b.toNat ∈ lossyFrom .between (a :: bs) → b ∈ a :: bs := by
      intro h
      rcases hf : State.between.feed a with _ | ⟨c, s'⟩
      · rw [lossyFrom_of_refused hf] at h
        refine List.mem_cons_of_mem _ (ih beyond_between ?_)
        exact (List.mem_cons.1 h).resolve_left (replacement_ne_of_plain hb).symm
      · rw [lossyFrom_of_feed hf] at h
        rcases feed_between hf with ⟨ha, rfl, rfl⟩ | ⟨rfl, -, hs⟩
        · rcases List.mem_cons.1 h with heq | h
          · rw [eq_of_charOfNat_eq hb.2 ha heq]
            exact List.mem_cons_self
          · exact List.mem_cons_of_mem _ (ih beyond_between h)
        · exact List.mem_cons_of_mem _ (ih hs h)
    intro s hs h
    cases s with
    | between => exact between h
    | inside owed low high value =>
      rcases hf : (State.inside owed low high value).feed a with _ | ⟨c, s'⟩
      · rw [lossyFrom_of_refused_inside hf] at h
        exact between ((List.mem_cons.1 h).resolve_left (replacement_ne_of_plain hb).symm)
      · rw [lossyFrom_of_feed hf] at h
        rcases hs.feed hf with ⟨n, hn, rfl, rfl⟩ | ⟨rfl, -, hs'⟩
        · refine List.mem_cons_of_mem _ (ih beyond_between ?_)
          exact (List.mem_cons.1 h).resolve_left (ofNat_ne_of_plain hb hn).symm
        · exact List.mem_cons_of_mem _ (ih hs' h)

/-- Something is read from octets, and from a character that is not complete. -/
theorem lossyFrom_ne_nil : ∀ {bs : Bytes} {s : State}, s.Beyond → bs ≠ [] ∨ s ≠ .between →
    lossyFrom s bs ≠ []
  | [], .between, _, h => by simp at h
  | [], .inside .., _, _ => by simp [lossyFrom]
  | a :: bs, .between, _, _ => by
    rcases hf : State.between.feed a with _ | ⟨c, s'⟩
    · simp [lossyFrom_of_refused hf]
    · rw [lossyFrom_of_feed hf]
      rcases feed_between hf with ⟨-, rfl, rfl⟩ | ⟨rfl, hne, hs⟩
      · simp
      · exact lossyFrom_ne_nil hs (.inr hne)
  | a :: bs, .inside owed low high value, hs, _ => by
    rcases hf : (State.inside owed low high value).feed a with _ | ⟨c, s'⟩
    · simp [lossyFrom_of_refused_inside hf]
    · rw [lossyFrom_of_feed hf]
      rcases hs.feed hf with ⟨n, -, rfl, rfl⟩ | ⟨rfl, hne, hs'⟩
      · simp
      · exact lossyFrom_ne_nil hs' (.inr hne)

/-! ## Values -/

variable {v p r : Bytes}

theorem mem_utf8EncodeChar (hb : Plain b) (h : b ∈ String.utf8EncodeChar x) :
    x = Char.ofNat b.toNat := by
  have hx : Char.ofNat x.val.toNat = x := Char.ofNat_toNat x
  have hlt := hb.2
  unfold String.utf8EncodeChar at h
  generalize x.val.toNat = n at hx h
  simp only at h
  split_ifs at h with h1
  · rw [List.mem_singleton.1 h, UInt8.toNat_ofNat_of_lt' (Nat.lt_of_le_of_lt h1 (by decide)), hx]
  all_goals
    -- the octets of longer sequences are too large
    simp only [List.mem_cons, List.not_mem_nil, or_false, ← UInt8.toNat_inj,
      UInt8.toNat_ofNat'] at h
    omega

theorem mem_of_mem_lossy (hb : Plain b) (h : b ∈ Bytes.ofString (lossy v)) : b ∈ v := by
  rw [lossy, Bytes.ofString_ofList, List.mem_flatMap] at h
  obtain ⟨x, hx, hbx⟩ := h
  rw [mem_utf8EncodeChar hb hbx] at hx
  exact mem_of_mem_lossyFrom hb beyond_between hx

theorem ofString_lossy_ne_nil (h : v ≠ []) : Bytes.ofString (lossy v) ≠ [] := by
  intro hnil
  have hdecoded := lossyFrom_ofString (lossy v)
  rw [hnil, lossy, String.toList_ofList] at hdecoded
  exact lossyFrom_ne_nil beyond_between (.inl h) hdecoded.symm

theorem lossyFrom_plain (hb : Plain b) (bs : Bytes) :
    lossyFrom .between (b :: bs) = Char.ofNat b.toNat :: lossyFrom .between bs := by
  have hfeed := feed_ascii b.toNat hb.2
  rw [UInt8.ofNat_toNat] at hfeed
  rw [lossyFrom_of_feed hfeed]
  rfl

/-- Octets that are read as the same text begin with the same ASCII characters. -/
theorem exists_of_lossy_eq : ∀ {p v : Bytes}, (∀ b ∈ p, Plain b) → lossy v = lossy (p ++ r) →
    ∃ r', v = p ++ r'
  | [], v, _, _ => ⟨v, rfl⟩
  | b :: p, v, hp, h => by
    have hb := hp b List.mem_cons_self
    have h := String.ofList_injective h
    rw [List.cons_append, lossyFrom_plain hb] at h
    obtain ⟨-, rest, rfl, hrest⟩ := exists_of_lossyFrom hb beyond_between h
    obtain ⟨r', rfl⟩ := exists_of_lossy_eq (fun b hb => hp b (List.mem_cons_of_mem _ hb))
      (congrArg String.ofList hrest)
    exact ⟨r', rfl⟩

end Utf8

end Stencil
