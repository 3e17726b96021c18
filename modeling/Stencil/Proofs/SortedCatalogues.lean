import Mathlib.Data.List.Lex
import Mathlib.Data.List.Nodup
import Mathlib.Data.String.Basic
import Stencil.Fixture.Catalogue
import Stencil.Proofs.DistinctNames

/-!
# Catalogues in order

Whatever the order in which fixtures are found, the catalogue has their categories in order, each
once, and in each category its fixtures in order. None is lost on the way, and none is there twice
where no folder has two entries of one name.
-/

namespace Stencil

namespace Path

variable {p q r : Path}

theorem le_iff (p q : Path) : p ≤ q ↔ p.key ≤ q.key :=
  not_lt (α := List (List Nat))

theorem total (p q : Path) : p ≤ q ∨ q ≤ p := by
  rw [le_iff, le_iff]
  exact le_total _ _

theorem trans (h : p ≤ q) (h' : q ≤ r) : p ≤ r := by
  rw [le_iff] at *
  exact h.trans h'

end Path

namespace Catalogue

variable {p : Path} {n : String} {c : Catalogue}

/-! ### Adding a fixture -/

theorem insertPath_perm (p : Path) : ∀ ps : List Path, (insertPath p ps).Perm (p :: ps)
  | [] => .refl _
  | q :: rest => by
    rw [insertPath]
    split_ifs
    · exact .refl _
    · exact ((insertPath_perm p rest).cons q).trans (.swap p q rest)

theorem sorted_insertPath (p : Path) : ∀ {ps : List Path}, ps.Pairwise (· ≤ ·) →
    (insertPath p ps).Pairwise (· ≤ ·)
  | [], _ => List.pairwise_singleton _ _
  | q :: rest, h => by
    obtain ⟨hq, hrest⟩ := List.pairwise_cons.1 h
    rw [insertPath]
    split_ifs with hle
    · refine List.pairwise_cons.2 ⟨fun r hr => ?_, h⟩
      rcases List.mem_cons.1 hr with rfl | hr
      · exact hle
      · exact Path.trans hle (hq r hr)
    · refine List.pairwise_cons.2 ⟨fun r hr => ?_, sorted_insertPath p hrest⟩
      rcases List.mem_cons.1 ((insertPath_perm p rest).mem_iff.1 hr) with rfl | hr
      · exact (Path.total q r).resolve_right hle
      · exact hq r hr

/-- The fixtures, each with its category. -/
def pairs (c : Catalogue) : List (String × Path) := c.flatMap fun e => e.2.map (e.1, ·)

theorem pairs_insert (n : String) (p : Path) : ∀ c : Catalogue,
    (pairs (insert n p c)).Perm ((n, p) :: pairs c)
  | [] => .refl _
  | (m, ps) :: rest => by
    rw [insert]
    split_ifs with heq
    · subst heq
      exact ((insertPath_perm p ps).map _).append_right _
    · exact .refl _
    · exact ((pairs_insert n p rest).append_left _).trans List.perm_middle

theorem mem_names_insert (n m : String) (p : Path) : ∀ c : Catalogue,
    m ∈ (insert n p c).map (·.1) ↔ m = n ∨ m ∈ c.map (·.1)
  | [] => by simp [insert]
  | (k, ps) :: rest => by
    rw [insert]
    split_ifs with heq
    · subst heq
      simp
    · simp
    · simp only [List.map_cons, List.mem_cons, mem_names_insert n m p rest]
      tauto

/-- Categories come in order, each of them once, and each has fixtures that come in order. -/
structure Sorted (c : Catalogue) : Prop where
  names : (c.map (·.1)).Pairwise (· < ·)
  paths : ∀ e ∈ c, e.2 ≠ [] ∧ e.2.Pairwise (· ≤ ·)

theorem sorted_nil : Sorted [] := ⟨.nil, by simp⟩

theorem Sorted.cons {ps : List Path} (hn : ∀ m ∈ c.map (·.1), n < m) (hne : ps ≠ [])
    (hps : ps.Pairwise (· ≤ ·)) (hc : Sorted c) : Sorted ((n, ps) :: c) where
  names := List.pairwise_cons.2 ⟨hn, hc.names⟩
  paths := List.forall_mem_cons.2 ⟨⟨hne, hps⟩, hc.paths⟩

theorem sorted_insert (n : String) (p : Path) : ∀ {c : Catalogue}, Sorted c → Sorted (insert n p c)
  | [], _ => .cons (by simp) (by simp) (List.pairwise_singleton _ _) sorted_nil
  | (m, ps) :: rest, h => by
    obtain ⟨hm, hnames⟩ := List.pairwise_cons.1 h.names
    obtain ⟨⟨hne, hps⟩, hpaths⟩ := List.forall_mem_cons.1 h.paths
    have hrest : Sorted rest := ⟨hnames, hpaths⟩
    rw [insert]
    split_ifs with heq hlt
    · refine .cons hm (fun hnil => ?_) (sorted_insertPath p hps) hrest
      simpa [hnil] using (insertPath_perm p ps).length_eq
    · refine .cons (List.forall_mem_cons.2 ⟨hlt, fun k hk => hlt.trans (hm k hk)⟩) (by simp)
        (List.pairwise_singleton _ _) h
    · refine .cons (fun k hk => ?_) hne hps (sorted_insert n p hrest)
      rcases (mem_names_insert n k p rest).1 hk with rfl | hk
      · exact lt_of_le_of_ne (not_lt.1 hlt) (Ne.symm heq)
      · exact hm k hk

/-! ### Catalogues of what is found -/

theorem sorted_ofFound (fixtures : List (String × Path)) : Sorted (ofFound fixtures) := by
  induction fixtures with
  | nil => exact sorted_nil
  | cons e rest ih => exact sorted_insert e.1 e.2 ih

/-- A catalogue has what was found, each fixture in its category. -/
theorem pairs_ofFound (fixtures : List (String × Path)) :
    (pairs (ofFound fixtures)).Perm fixtures := by
  induction fixtures with
  | nil => exact .refl _
  | cons e rest ih => exact (pairs_insert e.1 e.2 _).trans (ih.cons e)

theorem select_sublist (requests : List String) (c : Catalogue) :
    (select requests c).Sublist c := by
  rw [select]
  split_ifs
  · exact .refl _
  · exact List.filter_sublist

theorem Sorted.sublist {d : Catalogue} (h : Sorted c) (hd : d.Sublist c) : Sorted d where
  names := h.names.sublist (hd.map _)
  paths e he := h.paths e (hd.subset he)

/-- The fixtures, in the order in which they are run. -/
def fixtures (c : Catalogue) : List Path := c.flatMap (·.2)

theorem fixtures_eq_map_pairs (c : Catalogue) : c.fixtures = c.pairs.map (·.2) := by
  simp [fixtures, pairs, List.map_flatMap, Function.comp_def]

theorem Sorted.fixtures_eq_nil_iff (h : Sorted c) : c.fixtures = [] ↔ c = [] := by
  rcases c with _ | ⟨e, rest⟩
  · simp [fixtures]
  · simp [fixtures, (h.paths e (by simp)).1]

end Catalogue

/-! ### Fixtures have different paths -/

namespace Path

/-- What a folder's path puts before the names of its entries. -/
def stem (folder : Path) : Bytes := (folder.join ⟨[]⟩).octets

variable {name : Bytes}

theorem join_octets (folder : Path) (hname : 47 ∉ name) :
    (folder.join ⟨name⟩).octets = folder.stem ++ name := by
  have hrelative : (⟨name⟩ : Path).isAbsolute = false := by
    rcases name with _ | ⟨b, rest⟩
    · rfl
    · have hb : b ≠ 47 := fun h => hname (by simp [h])
      simp [isAbsolute, hb]
  unfold stem join
  rw [hrelative, show (⟨[]⟩ : Path).isAbsolute = false from rfl]
  rcases folder.octets.getLast? with _ | last
  · rfl
  · by_cases hlast : last = 47 <;> simp [hlast]

theorem stem_of_getLast? {folder : Path} {last : UInt8} (h : folder.octets.getLast? = some last)
    (hlast : last ≠ 47) : folder.stem = folder.octets ++ [47] := by
  simp [stem, join, isAbsolute, h, hlast]

theorem stem_join (folder : Path) (hne : name ≠ []) (hname : 47 ∉ name) :
    (folder.join ⟨name⟩).stem = folder.stem ++ name ++ [47] := by
  have hlast : (folder.join ⟨name⟩).octets.getLast? = some (name.getLast hne) := by
    rw [join_octets folder hname, List.getLast?_append_of_ne_nil _ hne,
      List.getLast?_eq_some_getLast hne]
  have hslash : name.getLast hne ≠ 47 := fun h => hname (h ▸ List.getLast_mem hne)
  rw [stem_of_getLast? hlast hslash, join_octets folder hname]

end Path

namespace Tree

/-- The entries of each folder have different names, which have octets and no slash among them. -/
inductive Proper : Tree → Prop where
  | file (content : Bytes) : Proper (.file content)
  | folder {entries : List (Bytes × Tree)} : Named.Distinct entries →
    (∀ e ∈ entries, e.1 ≠ [] ∧ 47 ∉ e.1) → (∀ e ∈ entries, e.2.Proper) → Proper (.folder entries)

theorem Proper.child? {t u : Tree} {name : Bytes} (h : t.Proper) (hu : t.child? name = some u) :
    u.Proper := by
  rcases h with _ | ⟨hdistinct, -, hproper⟩
  · cases hu
  · exact hproper _ ((Named.mem_iff_get? hdistinct).2 hu)

theorem Proper.at? : ∀ {names : List Bytes} {t u : Tree}, t.Proper → t.at? names = some u → u.Proper
  | [], _, _, h, hu => by
    obtain rfl := Option.some.inj hu
    exact h
  | name :: rest, t, u, h, hu => by
    obtain ⟨v, hv, hu⟩ := Option.bind_eq_some_iff.1 hu
    exact (h.child? hv).at? hu

end Tree

theorem Tree.Proper.tree {d : Disk} {p : Path} {t : Tree} (h : d.root.Proper)
    (ht : d.tree p = .ok t) : t.Proper := by
  unfold Disk.tree at ht
  rcases hplace : d.locate p with e | place <;> rw [hplace] at ht
  · cases ht
  rcases hat : d.root.at? place with _ | u <;> simp only [bind, Except.bind, hat] at ht <;> cases ht
  exact h.at? hat

namespace Catalogue

theorem found_eq_flatMap (folder : Path) (names : List Bytes) : ∀ entries : List (Bytes × Tree),
    found folder names entries = entries.flatMap fun e => foundAt folder names e.1 e.2
  | [] => by simp [found]
  | e :: rest => by rw [found, found_eq_flatMap folder names rest, List.flatMap_cons]

/-- What is found at an entry has a path that begins with the entry's. -/
theorem octets_of_mem_foundAt {t : Tree} (ht : t.Proper) : ∀ {folder : Path} {names : List Bytes}
    {name : Bytes}, name ≠ [] → 47 ∉ name → ∀ x ∈ foundAt folder names name t,
      ∃ rest : Bytes, x.2.octets = folder.stem ++ name ++ rest ∧
        (rest = [] ∨ rest.head? = some 47) := by
  induction ht with
  | file content =>
    intro folder names name hne hname x hx
    rw [foundAt] at hx
    split_ifs at hx
    · obtain rfl := List.mem_singleton.1 hx
      exact ⟨[], by simp [Path.join_octets folder hname], .inl rfl⟩
    · cases hx
  | folder hnames hentries hproper ih =>
    intro folder names name hne hname x hx
    rw [foundAt, found_eq_flatMap] at hx
    obtain ⟨e, he, hx⟩ := List.mem_flatMap.1 hx
    obtain ⟨rest, hrest, -⟩ := ih e he (hentries e he).1 (hentries e he).2 x hx
    rw [Path.stem_join folder hne hname] at hrest
    exact ⟨47 :: (e.1 ++ rest), by simp [hrest], .inr rfl⟩

/-- A name ends where a slash or nothing follows it. -/
theorem takeWhile_name {name rest : Bytes} (hname : 47 ∉ name)
    (hrest : rest = [] ∨ rest.head? = some 47) : (name ++ rest).takeWhile (· ≠ 47) = name := by
  have hall : ∀ b ∈ name, decide (b ≠ 47) := fun b hb => decide_eq_true fun h => hname (h ▸ hb)
  rw [List.takeWhile_append_of_pos hall]
  rcases rest with _ | ⟨b, rest⟩
  · simp
  · obtain rfl : b = 47 := by simpa using hrest
    simp

/-- Fixtures that are found at different entries of a folder have different paths. -/
theorem ne_of_mem_foundAt {t u : Tree} (ht : t.Proper) (hu : u.Proper) {folder : Path}
    {names : List Bytes} {n m : Bytes} (hn : n ≠ [] ∧ 47 ∉ n) (hm : m ≠ [] ∧ 47 ∉ m) (hne : n ≠ m)
    {x y : String × Path} (hx : x ∈ foundAt folder names n t) (hy : y ∈ foundAt folder names m u) :
    x.2 ≠ y.2 := by
  obtain ⟨r, hxo, hr⟩ := octets_of_mem_foundAt ht hn.1 hn.2 x hx
  obtain ⟨s, hyo, hs⟩ := octets_of_mem_foundAt hu hm.1 hm.2 y hy
  intro heq
  rw [heq, hyo, List.append_assoc, List.append_assoc, List.append_cancel_left_eq] at hxo
  exact hne (by rw [← takeWhile_name hn.2 hr, ← takeWhile_name hm.2 hs, hxo])

theorem nodup_found_of {entries : List (Bytes × Tree)} (hdistinct : Named.Distinct entries)
    (hentries : ∀ e ∈ entries, e.1 ≠ [] ∧ 47 ∉ e.1) (hproper : ∀ e ∈ entries, e.2.Proper)
    (hfound : ∀ e ∈ entries, ∀ (folder : Path) (names : List Bytes) (name : Bytes),
      ((foundAt folder names name e.2).map (·.2)).Nodup) (folder : Path) (names : List Bytes) :
    ((found folder names entries).map (·.2)).Nodup := by
  rw [found_eq_flatMap, List.map_flatMap, List.nodup_flatMap]
  refine ⟨fun e he => hfound e he .., (List.pairwise_map.1 hdistinct).imp_of_mem ?_⟩
  intro e f he hf hne
  refine List.disjoint_iff_ne.2 ?_
  simp only [List.forall_mem_map]
  exact fun x hx y hy =>
    ne_of_mem_foundAt (hproper e he) (hproper f hf) (hentries e he) (hentries f hf) hne hx hy

theorem nodup_foundAt {t : Tree} (ht : t.Proper) : ∀ (folder : Path) (names : List Bytes)
    (name : Bytes), ((foundAt folder names name t).map (·.2)).Nodup := by
  induction ht with
  | file content =>
    intro folder names name
    rw [foundAt]
    split_ifs <;> simp
  | folder hdistinct hentries hproper ih =>
    intro folder names name
    rw [foundAt]
    exact nodup_found_of hdistinct hentries hproper ih _ _

theorem nodup_found {t : Tree} (ht : t.Proper) (folder : Path) (names : List Bytes) :
    ((found folder names t.entries).map (·.2)).Nodup := by
  rcases ht with content | ⟨hdistinct, hentries, hproper⟩
  · simp [Tree.entries, found]
  · exact nodup_found_of hdistinct hentries hproper (fun e he => nodup_foundAt (hproper e he)) _ _

theorem sorted_discover (d : Disk) (path : Path) : Sorted (discover d path) := by
  unfold discover
  split
  · exact sorted_ofFound _
  · exact sorted_nil

theorem nodup_discover {d : Disk} (h : d.root.Proper) (path : Path) :
    (discover d path).fixtures.Nodup := by
  unfold discover
  split
  · rename_i entries hfolder
    rw [fixtures_eq_map_pairs, ((pairs_ofFound _).map _).nodup_iff]
    exact nodup_found (h.tree hfolder) path []
  · exact List.nodup_nil

end Catalogue

end Stencil
