import Stencil.Proofs.LossyText
import Stencil.Proofs.Markup

/-!
# Tags in their canonical spelling

Octets in which every tag is spelled canonically have the same tags as before, and the same texts
between them (`Tag.scanFrom_of_respelled`). What might be a tag in the text in front of another one,
and is none, stays none (`Respelled.read?_eq_none`): it can only reach into the other tag with a
value whose quote is the one in front of the name there. What follows that quote is then read from
the name, which begins with the same ASCII characters in every spelling.
-/

namespace Stencil

/-- Where an element stands behind a list that does not have it, the list is in front of it. -/
theorem exists_of_append_cons_eq {α : Type} {a : α} {u s p r : List α}
    (h : u ++ a :: s = p ++ r) (hp : a ∉ p) : ∃ q, u = p ++ q ∧ q ++ a :: s = r := by
  rcases List.append_eq_append_iff.1 h with ⟨q, rfl, hq⟩ | ⟨q, rfl, hq⟩
  · rcases q with _ | ⟨c, q⟩
    · exact ⟨[], by simp, by simpa using hq⟩
    · obtain ⟨rfl, -⟩ := List.cons.inj hq
      simp at hp
  · exact ⟨q, rfl, hq.symm⟩

/-- The first occurrence of an element divides a list in one way. -/
theorem append_cons_inj {α : Type} {a : α} {u v s r : List α} (h : u ++ a :: s = v ++ a :: r)
    (hu : a ∉ u) (hv : a ∉ v) : u = v ∧ s = r := by
  obtain ⟨q, rfl, hq⟩ := exists_of_append_cons_eq h hv
  rcases q with _ | ⟨c, q⟩
  · simpa using hq
  · obtain ⟨rfl, -⟩ := List.cons.inj hq
    simp at hu

namespace Bytes

variable {source bs w : Bytes} {b : UInt8} {pos n : Nat}

theorem lt_length_of_drop (h : source.drop pos = b :: bs) : pos < source.length := by
  have hlen := congrArg List.length h
  rw [List.length_drop, List.length_cons] at hlen
  omega

theorem drop_succ_of_drop (h : source.drop pos = b :: bs) : source.drop (pos + 1) = bs := by
  rw [← List.tail_drop, h, List.tail_cons]

theorem slice_self (bs : Bytes) (n : Nat) : bs.slice n n = [] := by
  rw [slice, Nat.sub_self, List.take_zero]

theorem slice_succ_of_drop (h : source.drop pos = b :: bs) (hn : pos < n) :
    source.slice pos n = b :: source.slice (pos + 1) n := by
  obtain ⟨k, rfl⟩ := Nat.exists_eq_add_of_lt hn
  rw [slice, slice, h, drop_succ_of_drop h, show pos + k + 1 - pos = k + 1 by omega,
    show pos + k + 1 - (pos + 1) = k by omega, List.take_succ_cons]

theorem slice_of_drop (h : source.drop pos = w ++ bs) :
    source.slice pos (pos + w.length) = w ∧ source.drop (pos + w.length) = bs := by
  constructor
  · rw [slice, h, Nat.add_sub_cancel_left, List.take_left]
  · rw [← List.drop_drop, h, List.drop_left]

end Bytes

namespace Lexeme

open Bytes (Spells)

variable {x y : Lexeme} {w w' bs cs p rest value : Bytes} {b : UInt8}

/-! ## The parts of a spelling -/

theorem not_mem_of_spells {word : String} (h : Spells word bs)
    (hb : Bytes.lower b ∉ (Bytes.ofString word).map Bytes.lower) : b ∉ bs := by
  intro hmem
  refine hb ?_
  rw [← h]
  exact List.mem_map_of_mem hmem

/-- No keyword has an opening bracket or a quote. -/
theorem not_mem_word {kind : Kind} (h : Spells kind.word bs) : 60 ∉ bs ∧ 34 ∉ bs := by
  constructor <;> refine not_mem_of_spells h ?_ <;> cases kind <;> decide

theorem not_mem_mark (h : Spells "TMPL_" bs) : 60 ∉ bs ∧ 34 ∉ bs :=
  ⟨not_mem_of_spells h (by decide), not_mem_of_spells h (by decide)⟩

theorem eq_quote_of_lower (h : Bytes.lower b = 34) : b = 34 := by
  unfold Bytes.lower at h
  split_ifs at h with hb
  · rw [UInt8.le_iff_toNat_le, UInt8.le_iff_toNat_le] at hb
    have := congrArg UInt8.toNat h
    simp at this hb
    omega
  · exact h

/-- The attribute ends in a quote. -/
theorem exists_of_spells_key (h : Spells "name=\"" bs) :
    ∃ stem, bs = stem ++ [34] ∧ 60 ∉ stem ∧ 34 ∉ stem := by
  have hword : Bytes.ofString "name=\"" = Bytes.ofString "name=" ++ [34] := by decide
  rw [Spells, hword, List.map_append, List.map_eq_append_iff] at h
  obtain ⟨stem, quote, rfl, hstem, hquote⟩ := h
  obtain ⟨c, rfl, hc⟩ := List.map_eq_singleton_iff.1 hquote
  rw [eq_quote_of_lower hc]
  have hstem : Spells "name=" stem := hstem
  exact ⟨stem, rfl, not_mem_of_spells hstem (by decide), not_mem_of_spells hstem (by decide)⟩

/-- A tag with a name has its first quote in front of the value, and its second one behind it. -/
theorem Spelling.parts (h : Spelling x w) :
    ((x.tag 0).name = none ∧ ∃ u, w = 60 :: u ∧ 60 ∉ u ∧ 34 ∉ u) ∨
      ∃ stem value n, (x.tag 0).name = some (Utf8.lossy value) ∧
        w = 60 :: (stem ++ 34 :: (value ++ 34 :: (List.replicate n 32 ++ [62]))) ∧
        60 ∉ stem ∧ 34 ∉ stem ∧ value ≠ [] ∧ 34 ∉ value ∧
        ∀ value', value' ≠ [] → 34 ∉ value' →
          ∃ y, Spelling y
            (60 :: (stem ++ 34 :: (value' ++ 34 :: (List.replicate n 32 ++ [62])))) := by
  cases h with
  | @divider mark word tail hm hw =>
    have hw : Spells Kind.elseMark.word word := hw
    refine .inl ⟨rfl, mark ++ word ++ List.replicate tail 32 ++ [62], rfl, ?_, ?_⟩
    · simp [not_mem_mark hm, not_mem_word hw]
    · simp [not_mem_mark hm, not_mem_word hw]
  | @closing kind keyword mark word tail hmem hm hw =>
    obtain ⟨-, rfl⟩ := mem_closers.1 hmem
    refine .inl ⟨rfl, 47 :: mark ++ word ++ List.replicate tail 32 ++ [62], rfl, ?_, ?_⟩
    · simp [not_mem_mark hm, not_mem_word hw]
    · simp [not_mem_mark hm, not_mem_word hw]
  | @opening kind keyword mark word key value gap tail hmem hm hw hkey hv hq =>
    obtain ⟨-, rfl⟩ := mem_openers.1 hmem
    obtain ⟨stem, rfl, hlt, hquote⟩ := exists_of_spells_key hkey
    refine .inr ⟨mark ++ word ++ List.replicate (gap + 1) 32 ++ stem, value, tail, rfl, ?_, ?_, ?_,
      hv, hq, fun value' hv' hq' => ⟨.opening kind gap value' tail, ?_⟩⟩
    · simp
    · simp [not_mem_mark hm, not_mem_word hw, hlt]
    · simp [not_mem_mark hm, not_mem_word hw, hquote]
    · have := Spelling.opening gap tail hmem hm hw hkey hv' hq'
      simpa using this

/-! ## The canonical spelling -/

/-- The canonical spelling of a tag writes a tag that says the same. -/
theorem exists_spelling_text (h : Spelling x w) :
    ∃ y, Spelling y (Bytes.ofString (x.tag 0).text) ∧ (y.tag 0).mark = (x.tag 0).mark := by
  have hmark : Spells "TMPL_" (Bytes.ofString "TMPL_") := rfl
  have hword : ∀ kind : Kind, Spells kind.word (Bytes.ofString kind.word) := fun _ => rfl
  cases h with
  | divider tail hm hw => exact ⟨.divider 0, .divider 0 hmark (hword .elseMark), rfl⟩
  | @closing kind keyword mark word tail hmem hm hw =>
    obtain ⟨-, rfl⟩ := mem_closers.1 hmem
    refine ⟨.closing kind 0, ?_, rfl⟩
    have htext : Bytes.ofString ((closing kind tail).tag 0).text =
        60 :: 47 :: Bytes.ofString "TMPL_" ++ Bytes.ofString kind.word ++
          List.replicate 0 32 ++ [62] := by
      simp only [Tag.text, tag, Lexeme.kind, Kind.keyword, if_true, Bytes.ofString_append,
        List.append_assoc]
      rfl
    exact htext ▸ .closing 0 hmem hmark (hword kind)
  | @opening kind keyword mark word key value gap tail hmem hm hw hkey hv hq =>
    obtain ⟨-, rfl⟩ := mem_openers.1 hmem
    have hq' : 34 ∉ Bytes.ofString (Utf8.lossy value) := fun h =>
      hq (Utf8.mem_of_mem_lossy ⟨by decide, by decide⟩ h)
    refine ⟨.opening kind 0 (Bytes.ofString (Utf8.lossy value)) 0, ?_, ?_⟩
    · have htext : Bytes.ofString ((opening kind gap value tail).tag 0).text =
          60 :: Bytes.ofString "TMPL_" ++ Bytes.ofString kind.word ++ List.replicate (0 + 1) 32 ++
            Bytes.ofString "name=\"" ++ Bytes.ofString (Utf8.lossy value) ++ [34] ++
              List.replicate 0 32 ++ [62] := by
        simp only [Tag.text, tag, Lexeme.kind, Kind.keyword, Bytes.ofString_append,
          List.append_assoc, Bool.false_eq_true, if_false]
        rfl
      exact htext ▸ .opening 0 0 hmem hmark (hword kind) rfl (Utf8.ofString_lossy_ne_nil hv) hq'
    · simp only [Tag.mark, tag, Lexeme.kind, Utf8.lossy_ofString]

/-- A value that begins in front of a tag, and ends in front of some ASCII characters, has the whole
tag inside, which has no quote in any spelling, or it ends at the quote in front of the tag's name,
and the name begins with these characters in every spelling. -/
theorem Spelling.value_reaches (hx : Spelling x w) (hy : Spelling y w')
    (hname : (y.tag 0).name = (x.tag 0).name) (hp : ∀ b ∈ p, b = 32 ∨ b = 62)
    (h : w' ++ cs = value ++ 34 :: (p ++ rest)) (hvalue : 34 ∉ value) :
    (34 ∉ w ∧ ∃ q, value = w' ++ q ∧ cs = q ++ 34 :: (p ++ rest)) ∨
      ∃ stem r, w = stem ++ 34 :: (p ++ r) ∧ 34 ∉ stem ∧ stem ≠ [] := by
  rcases hx.parts with ⟨hxn, u, rfl, -, hu⟩ | ⟨stem, v, n, hxn, rfl, -, hstem, -⟩ <;>
    rcases hy.parts with ⟨hyn, u', rfl, -, hu'⟩ | ⟨stem', v', n', hyn, rfl, -, hstem', -⟩ <;>
    rw [hxn, hyn] at hname
  · obtain ⟨q, rfl, hq⟩ := exists_of_append_cons_eq h.symm (p := 60 :: u') (by simp [hu'])
    exact .inl ⟨by simp [hu], q, rfl, hq.symm⟩
  · cases hname
  · cases hname
  · have hquote : (60 :: stem') ++ 34 :: (v' ++ 34 :: (List.replicate n' 32 ++ 62 :: cs)) =
        value ++ 34 :: (p ++ rest) := by simpa using h
    obtain ⟨rfl, hrest⟩ := append_cons_inj hquote (by simp [hstem']) hvalue
    have hp34 : 34 ∉ p := fun h => by rcases hp _ h with h | h <;> cases h
    obtain ⟨q, rfl, -⟩ := exists_of_append_cons_eq hrest hp34
    have hplain : ∀ b ∈ p, Utf8.Plain b := by
      intro b hb
      rcases hp b hb with rfl | rfl <;> exact ⟨by decide, by decide⟩
    obtain ⟨r, rfl⟩ := Utf8.exists_of_lossy_eq hplain (Option.some.inj hname).symm
    exact .inr ⟨60 :: stem, r ++ 34 :: (List.replicate n 32 ++ [62]), by simp, by simp [hstem],
      List.cons_ne_nil _ _⟩

/-- The second octets are the first ones with every tag in its canonical spelling. -/
inductive Respelled : Bytes → Bytes → Prop
  | nil : Respelled [] []
  | text {b : UInt8} {bs cs : Bytes} : read? (b :: bs) = none → Respelled bs cs →
    Respelled (b :: bs) (b :: cs)
  | tag {x : Lexeme} {w bs cs : Bytes} : Spelling x w → Respelled bs cs →
    Respelled (w ++ bs) (Bytes.ofString (x.tag 0).text ++ cs)

namespace Respelled

/-- Up to the next opening bracket, the octets are the same. -/
theorem exists_of_append (h : Respelled bs cs) : ∀ {p : Bytes}, cs = p ++ rest → 60 ∉ p →
    ∃ rest', bs = p ++ rest' ∧ Respelled rest' rest := by
  induction h with
  | nil =>
    intro p hcs hp
    obtain ⟨rfl, rfl⟩ := List.nil_eq_append_iff.1 hcs
    exact ⟨[], rfl, .nil⟩
  | @text b bs cs hn hr ih =>
    intro p hcs hp
    rcases p with _ | ⟨c, p⟩
    · rw [List.nil_append] at hcs
      exact ⟨b :: bs, rfl, hcs ▸ .text hn hr⟩
    · obtain ⟨rfl, htail⟩ := List.cons.inj hcs
      obtain ⟨rest', rfl, hrest⟩ := ih htail fun h => hp (List.mem_cons_of_mem _ h)
      exact ⟨rest', rfl, hrest⟩
  | @tag x w bs cs hx hr ih =>
    intro p hcs hp
    rcases p with _ | ⟨c, p⟩
    · rw [List.nil_append] at hcs
      exact ⟨w ++ bs, rfl, hcs ▸ .tag hx hr⟩
    · obtain ⟨y, hy, -⟩ := exists_spelling_text hx
      obtain ⟨u, hu⟩ : ∃ u, Bytes.ofString (x.tag 0).text = 60 :: u := by
        rcases hy.parts with ⟨-, u, hu, -⟩ | ⟨stem, value, n, -, hu, -⟩
        · exact ⟨u, hu⟩
        · exact ⟨_, hu⟩
      rw [hu] at hcs
      obtain ⟨rfl, -⟩ := List.cons.inj hcs
      exact absurd List.mem_cons_self hp

/-- A value that ends in front of some ASCII characters does so in both spellings. -/
theorem exists_value (h : Respelled bs cs) (hp : ∀ b ∈ p, b = 32 ∨ b = 62) :
    ∀ {value : Bytes}, cs = value ++ 34 :: (p ++ rest) → 34 ∉ value →
      ∃ value' rest', bs = value' ++ 34 :: (p ++ rest') ∧ 34 ∉ value' ∧
        (value ≠ [] → value' ≠ []) := by
  have hp60 : 60 ∉ p := fun h => by rcases hp _ h with h | h <;> cases h
  induction h with
  | nil =>
    intro value hcs _
    simp at hcs
  | @text b bs cs hn hr ih =>
    intro value hcs hq
    rcases value with _ | ⟨c, value⟩
    · obtain ⟨rfl, htail⟩ := List.cons.inj hcs
      obtain ⟨rest', rfl, -⟩ := hr.exists_of_append htail hp60
      exact ⟨[], rest', rfl, List.not_mem_nil, fun h => h⟩
    · obtain ⟨rfl, htail⟩ := List.cons.inj hcs
      obtain ⟨value', rest', rfl, hq', -⟩ := ih htail fun h => hq (List.mem_cons_of_mem _ h)
      refine ⟨b :: value', rest', rfl, ?_, fun _ => List.cons_ne_nil _ _⟩
      simp only [List.mem_cons, not_or] at hq ⊢
      exact ⟨hq.1, hq'⟩
  | @tag x w bs cs hx hr ih =>
    intro value hcs hvalue
    obtain ⟨y, hy, hmark⟩ := exists_spelling_text hx
    rcases hx.value_reaches hy (congrArg Mark.name hmark) hp hcs hvalue with
      ⟨hw, q, rfl, hq⟩ | ⟨stem, r, rfl, hstem, hne⟩
    · obtain ⟨value', rest', rfl, hvalue', -⟩ := ih hq fun h => hvalue (List.mem_append_right _ h)
      exact ⟨w ++ value', rest', by simp, by simp [hw, hvalue'], fun _ => by simp [hx.ne_nil]⟩
    · exact ⟨stem, r ++ bs, by simp, hstem, fun _ => hne⟩

/-- Where no tag begins, none begins when the tags behind are spelled canonically. -/
theorem read?_eq_none (h : Respelled bs cs) (hn : read? (b :: bs) = none) :
    read? (b :: cs) = none := by
  suffices hsome : ∀ z u rest, Spelling z u → b :: cs = u ++ rest →
      ∃ z' u' rest', Spelling z' u' ∧ b :: bs = u' ++ rest' by
    rw [Option.eq_none_iff_forall_not_mem]
    rintro ⟨z, rest⟩ hz
    obtain ⟨u, hu, hcs⟩ := read?_eq_some_iff.1 hz
    obtain ⟨z', u', rest', hu', hbs⟩ := hsome z u rest hu hcs
    rw [read?_eq_some_iff.2 ⟨u', hu', hbs⟩] at hn
    cases hn
  intro z u rest hz hcs
  rcases hz.parts with ⟨-, u, rfl, hlt, -⟩ | ⟨stem, value, n, -, rfl, hlt, -, hne, hq, hother⟩
  · obtain ⟨rfl, htail⟩ := List.cons.inj hcs
    obtain ⟨rest', rfl, -⟩ := h.exists_of_append htail hlt
    exact ⟨z, 60 :: u, rest', hz, rfl⟩
  · obtain ⟨rfl, htail⟩ := List.cons.inj hcs
    have hlt' : 60 ∉ stem ++ [34] := by simp [hlt]
    have hcs' : cs =
        (stem ++ [34]) ++ (value ++ 34 :: ((List.replicate n 32 ++ [62]) ++ rest)) := by
      rw [htail]
      simp
    obtain ⟨bs', rfl, hr⟩ := h.exists_of_append hcs' hlt'
    have hend : ∀ b ∈ (List.replicate n 32 ++ [62] : Bytes), b = 32 ∨ b = 62 := by
      intro b hb
      rcases List.mem_append.1 hb with h | h
      · exact .inl (List.eq_of_mem_replicate h)
      · exact .inr (List.mem_singleton.1 h)
    obtain ⟨value', rest', rfl, hq', hne'⟩ := hr.exists_value hend rfl hq
    obtain ⟨z', hz'⟩ := hother value' (hne' hne) hq'
    exact ⟨z', _, rest', hz', by simp⟩

end Respelled

end Lexeme

namespace Tag

open Lexeme (Respelled Spelling)

variable {source source' : Bytes} {bs cs w : Bytes} {b : UInt8} {pos pos' n : Nat} {x : Lexeme}
  {t : Tag} {tags : List Tag}

/-- The canonical spelling tells nothing but what the tag says. -/
theorem text_eq_of_mark {t' : Tag} (h : t'.mark = t.mark) : t'.text = t.text := by
  unfold text
  rw [show t'.kind = t.kind from congrArg Mark.kind h,
    show t'.name = t.name from congrArg Mark.name h,
    show t'.closes = t.closes from congrArg Mark.closes h]

/-! ## Scanning -/

theorem start_of_mem_scanFrom (h : source.drop pos = b :: bs) (ht : t ∈ scanFrom (pos + 1) 0 bs) :
    pos + 1 ≤ t.span.start := by
  have hlt := Bytes.lt_length_of_drop h
  rw [← Bytes.drop_succ_of_drop h, ← scan_drop hlt] at ht
  exact (scan_bounds le_rfl hlt ht).1

theorem scanFrom_of_spelling (h : Spelling x w) (pos : Nat) (bs : Bytes) :
    scanFrom pos 0 (w ++ bs) = x.tag pos :: scanFrom (pos + x.width) 0 bs := by
  have hlen := h.length
  obtain ⟨c, u, rfl⟩ := List.exists_cons_of_ne_nil h.ne_nil
  have hread : Lexeme.read? (c :: (u ++ bs)) = some (x, bs) :=
    Lexeme.read?_eq_some_iff.2 ⟨_, h, rfl⟩
  rw [List.cons_append, scanFrom, hread]
  simp only [List.length_cons] at hlen ⊢
  rw [scanFrom_covered, show pos + 1 + (x.width - 1) = pos + x.width by omega,
    show x.width - 1 = u.length by omega, List.drop_left]

theorem scanFrom_of_read?_eq_none (h : Lexeme.read? (b :: bs) = none) (pos : Nat) :
    scanFrom pos 0 (b :: bs) = scanFrom (pos + 1) 0 bs := by
  rw [scanFrom, h]

/-- An octet in front of the first text. -/
theorem texts_of_drop (h : source.drop pos = b :: bs) (ht : ∀ t ∈ tags, pos + 1 ≤ t.span.start) :
    texts source pos tags = Markup.inFront [b] (texts source (pos + 1) tags) := by
  rcases tags with _ | ⟨t, tags⟩
  · rw [texts, texts, Bytes.slice_succ_of_drop h (Bytes.lt_length_of_drop h)]
    rfl
  · rw [texts, texts, Bytes.slice_succ_of_drop h (ht t List.mem_cons_self)]
    rfl

/-- Scanning the octets with canonical spellings gives tags that say the same, with the same texts
between them, and each of them in its canonical spelling. -/
theorem scanFrom_of_respelled (h : Respelled bs cs) : ∀ {pos pos' : Nat}, source.drop pos = bs →
    source'.drop pos' = cs →
      (scanFrom pos' 0 cs).map (·.mark) = (scanFrom pos 0 bs).map (·.mark) ∧
        texts source' pos' (scanFrom pos' 0 cs) = texts source pos (scanFrom pos 0 bs) ∧
          ∀ t ∈ scanFrom pos' 0 cs,
            source'.slice t.span.start t.span.stop = Bytes.ofString t.text := by
  induction h with
  | nil =>
    intro pos pos' hs hs'
    refine ⟨rfl, ?_, by simp [scanFrom]⟩
    simp [scanFrom, texts, Bytes.slice, hs, hs']
  | @text b bs cs hn hr ih =>
    intro pos pos' hs hs'
    obtain ⟨hmark, htexts, hspell⟩ :=
      ih (Bytes.drop_succ_of_drop hs) (Bytes.drop_succ_of_drop hs')
    rw [scanFrom_of_read?_eq_none hn, scanFrom_of_read?_eq_none (hr.read?_eq_none hn),
      texts_of_drop hs fun t => start_of_mem_scanFrom hs,
      texts_of_drop hs' fun t => start_of_mem_scanFrom hs', htexts]
    exact ⟨hmark, rfl, hspell⟩
  | @tag x w bs cs hx hr ih =>
    intro pos pos' hs hs'
    obtain ⟨y, hy, hmark⟩ := Lexeme.exists_spelling_text hx
    obtain ⟨-, hdrop⟩ := Bytes.slice_of_drop hs
    obtain ⟨hslice', hdrop'⟩ := Bytes.slice_of_drop hs'
    rw [hx.length] at hdrop
    rw [hy.length] at hslice' hdrop'
    obtain ⟨hmarks, htexts, hspell⟩ := ih hdrop hdrop'
    rw [scanFrom_of_spelling hx, scanFrom_of_spelling hy]
    refine ⟨?_, ?_, ?_⟩
    · rw [List.map_cons, List.map_cons, hmarks]
      exact congrArg (· :: _) hmark
    · have hfront : source.slice pos (x.tag pos).span.start = [] := Bytes.slice_self source pos
      have hfront' : source'.slice pos' (y.tag pos').span.start = [] :=
        Bytes.slice_self source' pos'
      rw [texts, texts, hfront, hfront']
      exact congrArg ([] :: ·) htexts
    · intro t ht
      rcases List.mem_cons.1 ht with rfl | ht
      · have htext : (y.tag pos').text = (x.tag 0).text :=
          text_eq_of_mark (show (y.tag pos').mark = (x.tag 0).mark from hmark)
        rw [htext]
        exact hslice'
      · exact hspell t ht

end Tag

end Stencil
