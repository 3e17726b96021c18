import Mathlib.Data.List.TakeDrop
import Mathlib.Data.List.TakeWhile
import Stencil.Tag.Lexeme

/-!
# Reading a tag accepts exactly the grammar

`Spelling` is the grammar of tags, said without the reader: how the octets of each written tag are
put together. The reader takes exactly the words of this grammar off the head of the octets
(`read?_eq_some_iff`), each of its parts exactly its part of them. So no two words begin at one
place (`Spelling.unique`): a keyword ends at a space or a `>`, which are no letters, and a value
ends at its first quote.
-/

namespace Stencil

namespace Bytes

/-- The octets spell the word, the case of ASCII letters aside. -/
def Spells (word : String) (bs : Bytes) : Prop := bs.map lower = (ofString word).map lower

theorem Spells.length {word : String} {bs : Bytes} (h : Spells word bs) :
    bs.length = (ofString word).length := by
  have := congrArg List.length h
  simpa using this

theorem dropWord?_eq_some_iff {rest : Bytes} : ∀ {word bs : Bytes},
    dropWord? word bs = some rest ↔ ∃ w, w.map lower = word.map lower ∧ bs = w ++ rest
  | [], bs => by simp [dropWord?]
  | w :: word, [] => by
    simp only [dropWord?, reduceCtorEq, List.nil_eq, List.append_eq_nil_iff, false_iff]
    rintro ⟨u, hu, rfl, -⟩
    simp at hu
  | w :: word, b :: bs => by
    simp only [dropWord?]
    split
    · rename_i hb
      rw [dropWord?_eq_some_iff]
      constructor
      · rintro ⟨u, hu, rfl⟩
        exact ⟨b :: u, by simp [hu, hb], rfl⟩
      · rintro ⟨_ | ⟨c, u⟩, hu, hbs⟩
        · simp at hu
        · obtain ⟨rfl, rfl⟩ := List.cons.inj hbs
          exact ⟨u, (List.cons.inj hu).2, rfl⟩
    · rename_i hb
      simp only [reduceCtorEq, false_iff]
      rintro ⟨_ | ⟨c, u⟩, hu, hbs⟩
      · simp at hu
      · obtain ⟨rfl, rfl⟩ := List.cons.inj hbs
        exact hb (List.cons.inj hu).1.symm

/-- What `skip` takes off are all the occurrences at the head: none follows them. -/
theorem skip_eq_iff {x : UInt8} : ∀ {bs rest : Bytes} {n : Nat},
    skip x bs = (n, rest) ↔ bs = List.replicate n x ++ rest ∧ rest.head? ≠ some x
  | [], rest, n => by
    simp only [skip, Prod.mk.injEq, List.nil_eq, List.append_eq_nil_iff,
      List.replicate_eq_nil_iff]
    constructor
    · rintro ⟨rfl, rfl⟩
      simp
    · rintro ⟨⟨rfl, rfl⟩, -⟩
      simp
  | b :: bs, rest, 0 => by
    simp only [skip]
    split
    · rename_i hb
      simp only [Prod.mk.injEq, Nat.add_eq_zero_iff, Nat.succ_ne_self, and_false, false_and,
        List.replicate_zero, List.nil_append, false_iff]
      rintro ⟨rfl, h⟩
      simp [hb] at h
    · rename_i hb
      simp only [Prod.mk.injEq, true_and, List.replicate_zero, List.nil_append]
      constructor
      · rintro rfl
        simpa using hb
      · exact fun h => h.1
  | b :: bs, rest, n + 1 => by
    simp only [skip]
    split
    · rename_i hb
      subst hb
      have ih : (skip b bs).1 = n ∧ (skip b bs).2 = rest ↔ _ := Prod.ext_iff.symm.trans skip_eq_iff
      simpa [List.replicate_succ] using ih
    · rename_i hb
      simp [List.replicate_succ, hb]

end Bytes

namespace Lexeme

open Bytes (Spells)

/-- The keywords behind `<TMPL_` of the tags that have a name. -/
def openers : List (Kind × String) :=
  [(.ifBlock, "IF"), (.incl, "INCL"), (.includes, "INCLUDE"), (.loopBlock, "LOOP"),
    (.unlessBlock, "UNLESS"), (.var, "VAR")]

/-- The keywords behind `</TMPL_`. -/
def closers : List (Kind × String) :=
  [(.ifBlock, "IF"), (.loopBlock, "LOOP"), (.unlessBlock, "UNLESS"), (.var, "VAR")]

/-- The grammar of tags: the octets that write each of them. -/
inductive Spelling : Lexeme → Bytes → Prop where
  | divider {mark word : Bytes} (tail : Nat) :
    Spells "TMPL_" mark → Spells "ELSE" word →
    Spelling (.divider tail) (60 :: mark ++ word ++ List.replicate tail 32 ++ [62])
  | opening {kind : Kind} {keyword : String} {mark word key value : Bytes} (gap tail : Nat) :
    (kind, keyword) ∈ openers → Spells "TMPL_" mark → Spells keyword word →
    Spells "name=\"" key → value ≠ [] → 34 ∉ value →
    Spelling (.opening kind gap value tail)
      (60 :: mark ++ word ++ List.replicate (gap + 1) 32 ++ key ++ value ++ [34]
        ++ List.replicate tail 32 ++ [62])
  | closing {kind : Kind} {keyword : String} {mark word : Bytes} (tail : Nat) :
    (kind, keyword) ∈ closers → Spells "TMPL_" mark → Spells keyword word →
    Spelling (.closing kind tail) (60 :: 47 :: mark ++ word ++ List.replicate tail 32 ++ [62])

/-! ## Keywords -/

theorem mem_openers {kind : Kind} {keyword : String} :
    (kind, keyword) ∈ openers ↔ kind ∈ namedKinds ∧ keyword = kind.word := by
  cases kind <;> simp [openers, namedKinds, Kind.word]

theorem mem_closers {kind : Kind} {keyword : String} :
    (kind, keyword) ∈ closers ↔ kind ∈ closedKinds ∧ keyword = kind.word := by
  cases kind <;> simp [closers, closedKinds, Kind.word]

/-- A keyword has neither a space nor a `>`. -/
theorem not_mem_of_spells_word {kind : Kind} {word : Bytes} (h : Spells kind.word word) :
    ∀ b ∈ word, b ≠ 32 ∧ b ≠ 62 := by
  have hk : ((Bytes.ofString kind.word).map Bytes.lower).all (fun c => c != 32 && c != 62) := by
    cases kind <;> rfl
  intro b hb
  have hlow := List.all_eq_true.1 hk (Bytes.lower b) (h ▸ List.mem_map_of_mem hb)
  constructor <;> rintro rfl <;> exact absurd hlow (by decide)

theorem word_injective : ∀ k k' : Kind,
    (Bytes.ofString k.word).map Bytes.lower = (Bytes.ofString k'.word).map Bytes.lower →
      k = k' := by
  intro k k'
  cases k <;> cases k' <;> decide

/-- What may follow a keyword. -/
def EndsWord (rest : Bytes) : Prop := ∃ tail, rest = 32 :: tail ∨ rest = 62 :: tail

theorem endsWord_tail (tail : Nat) (rest : Bytes) :
    EndsWord (List.replicate tail 32 ++ 62 :: rest) := by
  rcases tail with _ | tail
  · exact ⟨_, .inr rfl⟩
  · exact ⟨_, .inl rfl⟩

theorem word_unique {u v r s : Bytes} (hu : ∀ b ∈ u, b ≠ 32 ∧ b ≠ 62)
    (hv : ∀ b ∈ v, b ≠ 32 ∧ b ≠ 62) (hr : EndsWord r) (hs : EndsWord s)
    (h : u ++ r = v ++ s) : u = v := by
  have take : ∀ {w q : Bytes}, (∀ b ∈ w, b ≠ 32 ∧ b ≠ 62) → EndsWord q →
      (w ++ q).takeWhile (fun b => b ≠ 32 ∧ b ≠ 62) = w := by
    rintro w q hw ⟨q, rfl | rfl⟩ <;>
      rw [List.takeWhile_append_of_pos (by simpa using hw)] <;> simp
  rw [← take hu hr, h, take hv hs]

/-- One of the kinds' words is read, as a whole word. -/
theorem kind?_eq_some_iff {kinds : List Kind} {bs rest : Bytes} {kind : Kind} :
    kind? kinds bs = some (kind, rest) ↔
      kind ∈ kinds ∧ EndsWord rest ∧ ∃ word, Spells kind.word word ∧ bs = word ++ rest := by
  have exact : ∀ {k : Kind} {r : Bytes}, kind? kinds bs = some (k, r) →
      k ∈ kinds ∧ EndsWord r ∧ ∃ word, Spells k.word word ∧ bs = word ++ r := by
    intro k r h
    obtain ⟨k', hk', h⟩ := List.exists_of_findSome?_eq_some h
    split at h <;> simp only [Option.some.injEq, Prod.mk.injEq, reduceCtorEq] at h
    all_goals
      obtain ⟨rfl, rfl⟩ := h
      refine ⟨hk', ?_, Bytes.dropWord?_eq_some_iff.1 ‹_›⟩
    · exact ⟨_, .inl rfl⟩
    · exact ⟨_, .inr rfl⟩
  refine ⟨exact, ?_⟩
  rintro ⟨hk, hr, word, hw, rfl⟩
  rcases h : kind? kinds (word ++ rest) with _ | ⟨k, r⟩
  · have hn := List.findSome?_eq_none_iff.1 h kind hk
    rw [Bytes.dropWord?_eq_some_iff.2 ⟨word, hw, rfl⟩] at hn
    obtain ⟨tail, rfl | rfl⟩ := hr <;> simp at hn
  · obtain ⟨-, hr', word', hw', he⟩ := exact h
    obtain rfl := word_unique (not_mem_of_spells_word hw) (not_mem_of_spells_word hw') hr hr' he
    obtain rfl := word_injective _ _ (hw.symm.trans hw')
    rw [List.append_cancel_left he]

/-! ## The parts behind the keyword -/

theorem tail?_eq_some_iff {bs rest : Bytes} {n : Nat} :
    tail? bs = some (n, rest) ↔ bs = List.replicate n 32 ++ 62 :: rest := by
  unfold tail?
  constructor
  · intro h
    split at h
    · rename_i hs
      simp only [Option.some.injEq, Prod.mk.injEq] at h
      obtain ⟨rfl, rfl⟩ := h
      exact (Bytes.skip_eq_iff.1 hs).1
    · cases h
  · rintro rfl
    simp [Bytes.skip_eq_iff.2 (show _ ∧ (62 :: rest).head? ≠ some 32 from ⟨rfl, by simp⟩)]

theorem value?_eq_some_iff {bs value rest : Bytes} :
    value? bs = some (value, rest) ↔ value ≠ [] ∧ 34 ∉ value ∧ bs = value ++ 34 :: rest := by
  unfold value?
  rw [List.span_eq_takeWhile_dropWhile]
  constructor
  · intro h
    split at h
    · rename_i b v c r hs
      simp only [Option.some.injEq, Prod.mk.injEq] at h hs
      obtain ⟨rfl, rfl⟩ := h
      have hc : c = 34 := by
        have := List.head?_dropWhile_not (· ≠ (34 : UInt8)) bs
        rw [hs.2] at this
        simpa using this
      refine ⟨List.cons_ne_nil _ _, fun hm => ?_, ?_⟩
      · rw [← hs.1] at hm
        simpa using List.mem_takeWhile_imp hm
      · rw [← List.takeWhile_append_dropWhile (p := (· ≠ (34 : UInt8))) (l := bs), hs.1, hs.2, hc]
    · cases h
  · rintro ⟨hne, hq, rfl⟩
    obtain ⟨b, v, rfl⟩ := List.exists_cons_of_ne_nil hne
    have hall : ∀ c ∈ b :: v, decide (c ≠ (34 : UInt8)) = true := by
      intro c hc
      simp only [ne_eq, decide_not, Bool.not_eq_eq_eq_not, Bool.not_true, decide_eq_false_iff_not]
      rintro rfl
      exact hq hc
    rw [List.takeWhile_append_of_pos hall, List.dropWhile_append_of_pos hall]
    simp

theorem name?_eq_some_iff {bs value rest : Bytes} {gap : Nat} :
    name? bs = some (gap, value, rest) ↔ ∃ key, Spells "name=\"" key ∧ value ≠ [] ∧ 34 ∉ value ∧
      bs = List.replicate (gap + 1) 32 ++ key ++ value ++ 34 :: rest := by
  unfold name?
  constructor
  · intro h
    split at h
    · rename_i hs
      simp only [Option.bind_eq_bind, Option.bind_eq_some_iff, Option.pure_def, Option.some.injEq,
        Prod.mk.injEq] at h
      obtain ⟨_, hkey, ⟨_, _⟩, hvalue, rfl, rfl, rfl⟩ := h
      obtain ⟨key, hk, rfl⟩ := Bytes.dropWord?_eq_some_iff.1 hkey
      obtain ⟨hne, hq, rfl⟩ := value?_eq_some_iff.1 hvalue
      exact ⟨key, hk, hne, hq, by simpa using (Bytes.skip_eq_iff.1 hs).1⟩
    · cases h
  · rintro ⟨key, hk, hne, hq, rfl⟩
    have hhead : (key ++ (value ++ 34 :: rest)).head? ≠ some 32 := by
      rcases key with _ | ⟨b, key⟩
      · exact absurd hk.length (by decide)
      · intro h
        obtain rfl : b = 32 := by simpa using h
        exact absurd (List.cons.inj hk).1 (by decide)
    rw [List.append_assoc, List.append_assoc, Bytes.skip_eq_iff.2 ⟨rfl, hhead⟩]
    simp [Bytes.dropWord?_eq_some_iff.2 ⟨key, hk, rfl⟩, value?_eq_some_iff.2 ⟨hne, hq, rfl⟩]

/-! ## Whole tags -/

theorem closing?_eq_some_iff {bs rest : Bytes} {x : Lexeme} :
    closing? bs = some (x, rest) ↔ ∃ kind tail word, x = .closing kind tail ∧ kind ∈ closedKinds ∧
      Spells kind.word word ∧ bs = word ++ List.replicate tail 32 ++ 62 :: rest := by
  unfold closing?
  simp only [Option.bind_eq_bind, Option.bind_eq_some_iff, Option.pure_def, Option.some.injEq,
    Prod.mk.injEq, Prod.exists, kind?_eq_some_iff, tail?_eq_some_iff]
  constructor
  · rintro ⟨kind, _, ⟨hk, -, word, hw, rfl⟩, tail, _, rfl, rfl, rfl⟩
    exact ⟨kind, tail, word, rfl, hk, hw, by simp⟩
  · rintro ⟨kind, tail, word, rfl, hk, hw, rfl⟩
    refine ⟨kind, _, ⟨hk, endsWord_tail tail rest, word, hw, ?_⟩, tail, rest, rfl, rfl, rfl⟩
    simp

theorem opening?_eq_some_iff {bs rest : Bytes} {x : Lexeme} :
    opening? bs = some (x, rest) ↔
      (∃ tail word, x = .divider tail ∧ Spells Kind.elseMark.word word ∧
        bs = word ++ List.replicate tail 32 ++ 62 :: rest) ∨
      ∃ kind gap value tail word key, x = .opening kind gap value tail ∧ kind ∈ namedKinds ∧
        Spells kind.word word ∧ Spells "name=\"" key ∧ value ≠ [] ∧ 34 ∉ value ∧
        bs = word ++ List.replicate (gap + 1) 32 ++ key ++ value ++ 34 ::
          (List.replicate tail 32 ++ 62 :: rest) := by
  unfold opening?
  simp only [Option.bind_eq_bind, Option.bind_eq_some_iff, Prod.exists, kind?_eq_some_iff]
  constructor
  · rintro ⟨kind, r, ⟨hk, hr, word, hw, rfl⟩, h⟩
    split at h
    · simp only [Option.bind_eq_some_iff, Option.pure_def, Option.some.injEq,
        Prod.mk.injEq, Prod.exists, tail?_eq_some_iff] at h
      obtain ⟨tail, _, rfl, rfl, rfl⟩ := h
      exact .inl ⟨tail, word, rfl, hw, by simp⟩
    · rename_i hne
      simp only [Option.bind_eq_some_iff, Option.pure_def, Option.some.injEq,
        Prod.mk.injEq, Prod.exists, tail?_eq_some_iff, name?_eq_some_iff] at h
      obtain ⟨gap, value, _, ⟨key, hkey, hv, hq, rfl⟩, tail, _, rfl, rfl, rfl⟩ := h
      refine .inr ⟨kind, gap, value, tail, word, key, rfl, ?_, hw, hkey, hv, hq, by simp⟩
      exact (List.mem_cons.1 hk).resolve_left hne
  · rintro (⟨tail, word, rfl, hw, rfl⟩ |
      ⟨kind, gap, value, tail, word, key, rfl, hk, hw, hkey, hv, hq, rfl⟩)
    · refine ⟨.elseMark, _, ⟨List.mem_cons_self, endsWord_tail tail rest, word, hw, by simp⟩, ?_⟩
      simp [tail?_eq_some_iff.2 rfl]
    · refine ⟨kind, List.replicate (gap + 1) 32 ++ key ++ value ++ 34 ::
          (List.replicate tail 32 ++ 62 :: rest),
        ⟨List.mem_cons_of_mem _ hk, ⟨_, .inl rfl⟩, word, hw, by simp⟩, ?_⟩
      have hname : name? (List.replicate (gap + 1) 32 ++ key ++ value ++ 34 ::
          (List.replicate tail 32 ++ 62 :: rest)) = some (gap, value, _) :=
        name?_eq_some_iff.2 ⟨key, hkey, hv, hq, rfl⟩
      split
      · exact absurd hk (by decide)
      · rw [hname]
        simp [tail?_eq_some_iff.2 rfl]

theorem read?_of_not_slash {bs : Bytes} (h : bs.head? ≠ some 47) :
    read? (60 :: bs) = Bytes.dropWord? (Bytes.ofString "TMPL_") bs >>= opening? := by
  rcases bs with _ | ⟨b, bs⟩
  · rfl
  · rw [read?.eq_2]
    rintro r hr
    simp_all

theorem head?_of_spells_mark {mark : Bytes} (h : Spells "TMPL_" mark) (bs : Bytes) :
    (mark ++ bs).head? ≠ some 47 := by
  rcases mark with _ | ⟨b, mark⟩
  · exact absurd h.length (by decide)
  · intro hb
    obtain rfl : b = 47 := by simpa using hb
    exact absurd (List.cons.inj h).1 (by decide)

/-- The reader takes exactly the words of the grammar off the head of the octets. -/
theorem read?_eq_some_iff {bs rest : Bytes} {x : Lexeme} :
    read? bs = some (x, rest) ↔ ∃ w, Spelling x w ∧ bs = w ++ rest := by
  constructor
  · intro h
    unfold read? at h
    split at h
    · simp only [Option.bind_eq_bind, Option.bind_eq_some_iff, Bytes.dropWord?_eq_some_iff,
        closing?_eq_some_iff] at h
      obtain ⟨_, ⟨mark, hm, rfl⟩, kind, tail, word, rfl, hk, hw, rfl⟩ := h
      exact ⟨_, .closing tail (mem_closers.2 ⟨hk, rfl⟩) hm hw, by simp⟩
    · simp only [Option.bind_eq_bind, Option.bind_eq_some_iff, Bytes.dropWord?_eq_some_iff,
        opening?_eq_some_iff] at h
      obtain ⟨_, ⟨mark, hm, rfl⟩, ⟨tail, word, rfl, hw, rfl⟩ |
        ⟨kind, gap, value, tail, word, key, rfl, hk, hw, hkey, hv, hq, rfl⟩⟩ := h
      · exact ⟨_, .divider tail hm hw, by simp⟩
      · exact ⟨_, .opening gap tail (mem_openers.2 ⟨hk, rfl⟩) hm hw hkey hv hq, by simp⟩
    · cases h
  · rintro ⟨w, hw, rfl⟩
    cases hw with
    | @divider mark word tail hm hw =>
      have hopen : opening? (word ++ (List.replicate tail 32 ++ 62 :: rest))
          = some (.divider tail, rest) :=
        opening?_eq_some_iff.2 (.inl ⟨tail, word, rfl, hw, by simp⟩)
      simp only [List.cons_append, List.append_assoc, List.nil_append]
      rw [read?_of_not_slash (head?_of_spells_mark hm _),
        Bytes.dropWord?_eq_some_iff.2 ⟨mark, hm, rfl⟩]
      exact hopen
    | @opening kind keyword mark word key value gap tail hmem hm hw hkey hv hq =>
      obtain ⟨hk, rfl⟩ := mem_openers.1 hmem
      have hopen : opening? (word ++ (List.replicate (gap + 1) 32 ++ (key ++ (value ++ 34 ::
          (List.replicate tail 32 ++ 62 :: rest))))) = some (.opening kind gap value tail, rest) :=
        opening?_eq_some_iff.2
          (.inr ⟨kind, gap, value, tail, word, key, rfl, hk, hw, hkey, hv, hq, by simp⟩)
      simp only [List.cons_append, List.append_assoc, List.nil_append]
      rw [read?_of_not_slash (head?_of_spells_mark hm _),
        Bytes.dropWord?_eq_some_iff.2 ⟨mark, hm, rfl⟩]
      exact hopen
    | @closing kind keyword mark word tail hmem hm hw =>
      obtain ⟨hk, rfl⟩ := mem_closers.1 hmem
      have hclose : closing? (word ++ (List.replicate tail 32 ++ 62 :: rest))
          = some (.closing kind tail, rest) :=
        closing?_eq_some_iff.2 ⟨kind, tail, word, rfl, hk, hw, by simp⟩
      simp only [List.cons_append, List.append_assoc, List.nil_append]
      rw [read?.eq_1, Bytes.dropWord?_eq_some_iff.2 ⟨mark, hm, rfl⟩]
      exact hclose

theorem keyword_length (kind : Kind) : kind.keyword.length
    = (Bytes.ofString "TMPL_").length + (Bytes.ofString kind.word).length := by
  cases kind <;> rfl

theorem Spelling.length {x : Lexeme} {w : Bytes} (h : Spelling x w) : w.length = x.width := by
  cases h with
  | divider tail hm hw =>
    have hw : Spells Kind.elseMark.word _ := hw
    simp only [width, keyword_length, List.length_append, List.length_cons, List.length_replicate,
      List.length_nil, hm.length, hw.length]
    omega
  | opening gap tail hmem hm hw hkey hv hq =>
    obtain ⟨-, rfl⟩ := mem_openers.1 hmem
    have hkey6 : (Bytes.ofString "name=\"").length = 6 := rfl
    simp only [width, keyword_length, List.length_append, List.length_cons, List.length_replicate,
      List.length_nil, hm.length, hw.length, hkey.length]
    omega
  | closing tail hmem hm hw =>
    obtain ⟨-, rfl⟩ := mem_closers.1 hmem
    simp only [width, keyword_length, List.length_append, List.length_cons, List.length_replicate,
      List.length_nil, hm.length, hw.length]
    omega

theorem Spelling.ne_nil {x : Lexeme} {w : Bytes} (h : Spelling x w) : w ≠ [] := by
  cases h <;> simp

/-- At most one word of the grammar begins at any place, and it writes one tag. -/
theorem Spelling.unique {x y : Lexeme} {u v r s : Bytes} (hx : Spelling x u) (hy : Spelling y v)
    (h : u ++ r = v ++ s) : x = y ∧ u = v := by
  have hu : read? (u ++ r) = some (x, r) := read?_eq_some_iff.2 ⟨u, hx, rfl⟩
  have hv : read? (v ++ s) = some (y, s) := read?_eq_some_iff.2 ⟨v, hy, rfl⟩
  rw [h, hv] at hu
  simp only [Option.some.injEq, Prod.mk.injEq] at hu
  obtain ⟨rfl, rfl⟩ := hu
  exact ⟨rfl, List.append_cancel_right h⟩

end Lexeme

end Stencil
