import Mathlib.Data.List.TakeWhile
import Stencil.Proofs.PathOrder
import Stencil.Proofs.WellFormedText

/-!
# What is found below a folder

The fixtures below a folder are its files, at any depth, whose names have the end of fixtures, each
under the category of the folder that it is in. The order in which folders list their entries is
not seen: a sorted catalogue is told by its fixtures, as the order tells their paths apart. What is
selected are the categories that meet a request, and requests are a set.
-/

namespace Stencil

namespace Tree

variable {u : Tree}

/-- No entry at any depth is called what its folder itself is called. -/
inductive Undotted : Tree → Prop
  | file (content : Bytes) : Undotted (.file content)
  | folder {entries : List (Bytes × Tree)} : (∀ e ∈ entries, e.1 ≠ [46]) →
    (∀ e ∈ entries, e.2.Undotted) → Undotted (.folder entries)

theorem at?_file {content : Bytes} : ∀ {names : List Bytes}, names ≠ [] →
    at? names (.file content) = none
  | [], h => absurd rfl h
  | _ :: _, _ => rfl

/-- A path of names leads into an entry of the folder and on from there. -/
theorem at?_cons_iff {entries : List (Bytes × Tree)} (h : Named.Distinct entries) {name : Bytes}
    {rest : List Bytes} : at? (name :: rest) (.folder entries) = some u ↔
      ∃ t, (name, t) ∈ entries ∧ t.at? rest = some u := by
  rw [at?, Option.bind_eq_some_iff]
  simp only [child?, Named.mem_iff_get? h]

theorem isName_of_at? : ∀ {names : List Bytes} {t : Tree}, t.Proper → t.Undotted →
    t.at? names = some u → ∀ name ∈ names, Path.IsName name
  | [], _, _, _, _ => by simp
  | name :: rest, t, ht, hdot, hu => by
    rcases ht with _ | ⟨hdistinct, hentries, hproper⟩
    · cases hu
    · rcases hdot with _ | ⟨hnames, hundotted⟩
      obtain ⟨v, hmem, hrest⟩ := (at?_cons_iff hdistinct).1 hu
      obtain ⟨hne, hslash⟩ := hentries _ hmem
      exact List.forall_mem_cons.2 ⟨⟨hne, hslash, hnames _ hmem⟩,
        isName_of_at? (hproper _ hmem) (hundotted _ hmem) hrest⟩

/-- The same files and folders, but for the order in which folders list their entries. -/
inductive Relisted : Tree → Tree → Prop
  | same (t : Tree) : Relisted t t
  | order {entries listed : List (Bytes × Tree)} : entries.Perm listed →
    Relisted (.folder entries) (.folder listed)
  | inside {t u : Tree} (front back : List (Bytes × Tree)) (name : Bytes) : Relisted t u →
    Relisted (.folder (front ++ (name, t) :: back)) (.folder (front ++ (name, u) :: back))
  | trans {t u v : Tree} : Relisted t u → Relisted u v → Relisted t v

end Tree

namespace Catalogue

/-! ### What is found -/

theorem isFixture_iff (name : Bytes) : isFixture name = true ↔
    ∃ s : String, name = .ofString s ∧ ".test.tmpl".toList <:+ s.toList := by
  simp only [← Utf8.decode_eq_ok_iff, isFixture, Verdict.suffix]
  rcases Utf8.decode name with e | t <;> simp

theorem eq_category_iff (n : String) (names : List Bytes) : n = category names ↔ n.toList =
    (Utf8.lossy (List.intercalate [47] names)).toList.map fun c => if c = '\\' then '/' else c := by
  rw [category, ← String.toList_inj, String.toList_ofList]

/-- What is found below a folder are the files there that are named as fixtures. -/
theorem mem_found_iff {t : Tree} (ht : t.Proper) : ∀ (folder : Path) (names : List Bytes)
    {x : String × Path}, x ∈ found folder names t.entries ↔ ∃ folders name content,
      t.at? (folders ++ [name]) = some (.file content) ∧ isFixture name ∧
        x = (category (names ++ folders), folder.below (folders ++ [name])) := by
  induction ht with
  | file content =>
    intro folder names x
    constructor
    · intro hx
      simp [Tree.entries, found] at hx
    · rintro ⟨folders, name, content, hat, -⟩
      rw [Tree.at?_file (by simp)] at hat
      cases hat
  | @folder entries hdistinct hentries hproper ih =>
    intro folder names x
    rw [Tree.entries, found_eq_flatMap, List.mem_flatMap]
    constructor
    · rintro ⟨⟨name, t⟩, he, hx⟩
      rcases t with content | inner
      · rw [foundAt] at hx
        split_ifs at hx with hfixture
        · obtain rfl := List.mem_singleton.1 hx
          exact ⟨[], name, content, (Tree.at?_cons_iff hdistinct).2 ⟨_, he, rfl⟩, hfixture,
            by simp [Path.below]⟩
        · cases hx
      · obtain ⟨folders, last, content, hat, hfixture, rfl⟩ := (ih _ he _ _).1 hx
        exact ⟨name :: folders, last, content, (Tree.at?_cons_iff hdistinct).2 ⟨_, he, hat⟩,
          hfixture, by simp [Path.below_cons]⟩
    · rintro ⟨_ | ⟨name, folders⟩, last, content, hat, hfixture, rfl⟩
      · obtain ⟨t, he, hcontent⟩ := (Tree.at?_cons_iff hdistinct).1 hat
        obtain rfl := Option.some.inj hcontent
        exact ⟨_, he, by simp [foundAt, hfixture, Path.below]⟩
      · obtain ⟨t, he, hat⟩ := (Tree.at?_cons_iff hdistinct).1 hat
        have hx := (ih _ he (folder.join ⟨name⟩) (names ++ [name])).2
          ⟨folders, last, content, hat, hfixture, rfl⟩
        refine ⟨(name, t), he, ?_⟩
        rcases t with content | inner
        · cases hx
        · simpa [foundAt, Tree.entries, Path.below_cons] using hx

/-- The same is found in whatever order folders list their entries. -/
theorem perm_of_relisted {t u : Tree} (h : t.Relisted u) : ∀ (folder : Path) (names : List Bytes),
    (found folder names t.entries).Perm (found folder names u.entries) ∧
      ∀ name, (foundAt folder names name t).Perm (foundAt folder names name u) := by
  have both : ∀ {entries listed : List (Bytes × Tree)},
      (∀ folder names, (found folder names entries).Perm (found folder names listed)) →
        ∀ folder names, (found folder names entries).Perm (found folder names listed) ∧
          ∀ name, (foundAt folder names name (.folder entries)).Perm
            (foundAt folder names name (.folder listed)) := by
    intro entries listed h folder names
    simpa only [foundAt] using ⟨h folder names, fun name => h _ _⟩
  induction h with
  | same => exact fun _ _ => ⟨.refl _, fun _ => .refl _⟩
  | order hperm =>
    refine both fun folder names => ?_
    simp only [found_eq_flatMap]
    exact hperm.flatMap_right _
  | inside front back name _ ih =>
    refine both fun folder names => ?_
    simp only [Tree.entries, found_eq_flatMap, List.flatMap_append, List.flatMap_cons]
    exact (((ih _ _).2 _).append_right _).append_left _
  | trans _ _ ih ih' =>
    exact fun folder names => ⟨(ih _ _).1.trans (ih' _ _).1,
      fun name => ((ih _ _).2 name).trans ((ih' _ _).2 name)⟩

/-! ### Catalogues with the same fixtures -/

section Same

variable {c d : Catalogue} {n m : String} {ps qs : List Path} {x : String × Path}

theorem mem_pairs_cons : x ∈ pairs ((n, ps) :: c) ↔ (x.1 = n ∧ x.2 ∈ ps) ∨ x ∈ pairs c := by
  obtain ⟨k, p⟩ := x
  simp [pairs, eq_comm, and_comm]

theorem Sorted.tail (h : Sorted ((n, ps) :: c)) : c.Sorted := h.sublist (List.sublist_cons_self _ _)

theorem Sorted.lt_of_mem_pairs (h : Sorted ((n, ps) :: c)) (hx : x ∈ pairs c) : n < x.1 := by
  obtain ⟨e, he, hx⟩ := List.mem_flatMap.1 hx
  obtain ⟨p, -, rfl⟩ := List.mem_map.1 hx
  exact (List.pairwise_cons.1 h.names).1 e.1 (List.mem_map_of_mem he)

theorem Sorted.exists_mem_pairs (h : Sorted ((n, ps) :: c)) :
    ∃ p, (n, p) ∈ pairs ((n, ps) :: c) := by
  obtain ⟨p, hp⟩ := List.exists_mem_of_ne_nil ps (h.paths (n, ps) (by simp)).1
  exact ⟨p, mem_pairs_cons.2 (.inl ⟨rfl, hp⟩)⟩

theorem Sorted.first_le (hc : Sorted ((n, ps) :: c)) (hd : Sorted ((m, qs) :: d))
    (hsub : pairs ((m, qs) :: d) ⊆ pairs ((n, ps) :: c)) : n ≤ m := by
  obtain ⟨q, hq⟩ := hd.exists_mem_pairs
  rcases mem_pairs_cons.1 (hsub hq) with ⟨rfl, -⟩ | h
  · exact le_refl _
  · exact (hc.lt_of_mem_pairs h).le

theorem Sorted.filter_pairs (h : Sorted ((n, ps) :: c)) :
    (pairs ((n, ps) :: c)).filter (·.1 = n) = ps.map (n, ·) := by
  have hrest : (pairs c).filter (·.1 = n) = [] :=
    List.filter_eq_nil_iff.2 fun x hx => by simpa using (h.lt_of_mem_pairs hx).ne'
  rw [show pairs ((n, ps) :: c) = ps.map (n, ·) ++ pairs c from rfl, List.filter_append, hrest,
    List.append_nil, List.filter_eq_self]
  simp

/-- Catalogues of the same fixtures are equal if the order tells the fixtures' paths apart. -/
theorem Sorted.eq_of_perm : ∀ {c d : Catalogue}, c.Sorted → d.Sorted → c.pairs.Perm d.pairs →
    (∀ x ∈ c.pairs, ∀ y ∈ c.pairs, x.2.key = y.2.key → x.2 = y.2) → c = d
  | [], [], _, _, _, _ => rfl
  | [], (m, qs) :: d, _, hd, hperm, _ => by
    obtain ⟨q, hq⟩ := hd.exists_mem_pairs
    cases hperm.mem_iff.2 hq
  | (n, ps) :: c, [], hc, _, hperm, _ => by
    obtain ⟨p, hp⟩ := hc.exists_mem_pairs
    cases hperm.mem_iff.1 hp
  | (n, ps) :: c, (m, qs) :: d, hc, hd, hperm, hkey => by
    obtain rfl : n = m := le_antisymm (hc.first_le hd hperm.symm.subset)
      (hd.first_le hc hperm.subset)
    have hpaths : (ps.map (n, ·)).Perm (qs.map (n, ·)) := by
      rw [← hc.filter_pairs, ← hd.filter_pairs]
      exact hperm.filter _
    have hrest : (pairs c).Perm (pairs d) := (List.perm_append_left_iff _).1
      (hperm.trans (hpaths.symm.append_right _))
    have heq : ps = qs := by
      refine List.Perm.eq_of_pairwise (fun p q hp hq hle hle' => ?_) (hc.paths (n, ps) (by simp)).2
        (hd.paths (n, qs) (by simp)).2 (by simpa using hpaths.map Prod.snd)
      rw [Path.le_iff] at hle hle'
      have hq' : (n, q) ∈ pairs ((n, qs) :: d) := mem_pairs_cons.2 (.inl ⟨rfl, hq⟩)
      exact hkey (n, p) (mem_pairs_cons.2 (.inl ⟨rfl, hp⟩)) (n, q) (hperm.mem_iff.2 hq')
        (le_antisymm hle hle')
    rw [heq, hc.tail.eq_of_perm hd.tail hrest fun x hx y hy =>
      hkey x (mem_pairs_cons.2 (.inr hx)) y (mem_pairs_cons.2 (.inr hy))]

end Same

/-! ### What is selected -/

section Selected

variable {requests others : List String} {c : Catalogue} {e : String × List Path}

/-- The category is what the request is but for slashes at its ends, or is inside of that. -/
def Meets (request n : String) : Prop :=
  ∃ front core back : List Char, request.toList = front ++ core ++ back ∧
    (∀ c ∈ front, c = '/') ∧ (∀ c ∈ back, c = '/') ∧
    core.head? ≠ some '/' ∧ core.getLast? ≠ some '/' ∧
    (n.toList = core ∨ core ++ ['/'] <+: n.toList)

theorem dropWhile_eq_iff {α : Type} {p : α → Bool} {l r : List α} : l.dropWhile p = r ↔
    ∃ front, l = front ++ r ∧ (∀ a ∈ front, p a) ∧ ∀ a, r.head? = some a → p a = false := by
  constructor
  · rintro rfl
    refine ⟨l.takeWhile p, List.takeWhile_append_dropWhile.symm, fun a ha => ?_, fun a ha => ?_⟩
    · exact List.mem_takeWhile_imp ha
    · simpa [ha] using List.head?_dropWhile_not p l
  · rintro ⟨front, rfl, hfront, hhead⟩
    rw [List.dropWhile_append_of_pos hfront]
    rcases r with _ | ⟨a, rest⟩
    · rfl
    · exact List.dropWhile_cons_of_neg (by simp [hhead a rfl])

theorem trimOf_eq_iff {p : Char → Bool} {s : String} {core : List Char} :
    (Text.trimOf p s).toList = core ↔ ∃ front back, s.toList = front ++ core ++ back ∧
      (∀ c ∈ front, p c) ∧ (∀ c ∈ back, p c) ∧
      (∀ c, core.head? = some c → p c = false) ∧ ∀ c, core.getLast? = some c → p c = false := by
  rw [Text.trimOf, String.toList_ofList, List.reverse_eq_iff, dropWhile_eq_iff]
  simp only [List.head?_reverse]
  constructor
  · rintro ⟨back, heq, hback, hlast⟩
    rw [List.reverse_eq_iff, List.reverse_append, List.reverse_reverse] at heq
    obtain ⟨front, hs, hfront, hhead⟩ := dropWhile_eq_iff.1 heq
    exact ⟨front, back.reverse, by simpa using hs, hfront, by simpa using hback,
      fun c hc => hhead c (by simp [hc]), hlast⟩
  · rintro ⟨front, back, hs, hfront, hback, hhead, hlast⟩
    -- of a text that is trimmed to nothing, everything is in front
    rcases core with _ | ⟨c, core⟩
    · refine ⟨[], ?_, by simp, hlast⟩
      rw [List.append_nil] at hs
      have hall : ∀ c ∈ s.toList, p c := fun c hc =>
        (List.mem_append.1 (hs ▸ hc)).elim (hfront c) (hback c)
      simp [List.dropWhile_eq_nil_iff.2 hall]
    · have hdrop : s.toList.dropWhile p = c :: core ++ back :=
        dropWhile_eq_iff.2 ⟨front, by simp [hs], hfront, by simpa using hhead⟩
      exact ⟨back.reverse, by simp [hdrop], by simpa using hback, hlast⟩

theorem matches?_iff (request n : String) : matches? request n = true ↔ Meets request n := by
  have hne : ∀ x : Option Char, (∀ c, x = some c → c ≠ '/') ↔ x ≠ some '/' := fun x =>
    ⟨fun h hx => h '/' hx rfl, fun h c hx hc => h (hc ▸ hx)⟩
  have hcore : ∀ core, (requested request).toList = core ↔ ∃ front back : List Char,
      request.toList = front ++ core ++ back ∧ (∀ c ∈ front, c = '/') ∧ (∀ c ∈ back, c = '/') ∧
        core.head? ≠ some '/' ∧ core.getLast? ≠ some '/' := fun core => by
    simp only [requested, trimOf_eq_iff, beq_iff_eq, beq_eq_false_iff_ne, hne]
  simp only [matches?, Bool.or_eq_true, beq_iff_eq, List.isPrefixOf_iff_prefix,
    String.toList_append]
  constructor
  · intro h
    obtain ⟨front, back, hs, hfront, hback, hhead, hlast⟩ := (hcore _).1 rfl
    refine ⟨front, _, back, hs, hfront, hback, hhead, hlast, h.imp (congrArg _) id⟩
  · rintro ⟨front, core, back, hs, hfront, hback, hhead, hlast, h⟩
    obtain rfl := (hcore core).2 ⟨front, back, hs, hfront, hback, hhead, hlast⟩
    exact h.imp String.toList_inj.1 id

theorem mem_select_iff (hne : requests ≠ []) :
    e ∈ select requests c ↔ e ∈ c ∧ ∃ r ∈ requests, Meets r e.1 := by
  simp [select, hne, matches?_iff]

theorem select_congr (hne : requests ≠ []) (hne' : others ≠ [])
    (h : ∀ e ∈ c, (∃ r ∈ requests, Meets r e.1) ↔ ∃ r ∈ others, Meets r e.1) :
    select requests c = select others c := by
  simp only [select, List.isEmpty_iff, hne, hne', if_false]
  refine List.filter_congr fun e he => ?_
  rw [Bool.eq_iff_iff]
  simpa only [List.any_eq_true, matches?_iff] using h e he

end Selected

section Discovered

variable {d : Disk} {p : Path} {root : Tree}

theorem discover_eq (hp : d.tree p = .ok root) :
    discover d p = ofFound (found p [] root.entries) := by
  rw [discover, hp]
  rcases root with content | entries
  · simp [Tree.entries, found, ofFound]
  · rfl

theorem octets_ne_nil (hp : d.tree p = .ok root) : p.octets ≠ [] := by
  rintro hnil
  simp [Disk.tree, Disk.locate, Disk.check, hnil, bind, Except.bind] at hp

/-- The order tells the paths of fixtures apart. -/
theorem eq_of_key_eq (hp : d.tree p = .ok root) (hproper : root.Proper) (hdot : root.Undotted)
    {x y : String × Path} (hx : x ∈ found p [] root.entries) (hy : y ∈ found p [] root.entries)
    (hkey : x.2.key = y.2.key) : x.2 = y.2 := by
  obtain ⟨folders, name, content, hat, -, rfl⟩ := (mem_found_iff hproper p []).1 hx
  obtain ⟨folders', name', content', hat', -, rfl⟩ := (mem_found_iff hproper p []).1 hy
  exact congrArg p.below (Path.below_inj (octets_ne_nil hp)
    (Tree.isName_of_at? hproper hdot hat) (Tree.isName_of_at? hproper hdot hat') hkey)

/-- Below a folder, the fixtures are the files whose names end as those of fixtures do, each of them
once and in the category of its folder, in whatever order folders list their entries; categories
come in order, and so do the fixtures of each. Without a request all categories are selected, and
otherwise those that meet one of them, as they are. So it does not matter how often and in which
order requests are made, nor that some are met by nothing, and two lists of requests together select
what either of them selects. -/
theorem discover_and_select (hp : d.tree p = .ok root) (hproper : root.Proper)
    (hdot : root.Undotted) :
    ((discover d p).Sorted ∧ (discover d p).fixtures.Nodup ∧
      (∀ n q, (n, q) ∈ (discover d p).pairs ↔ ∃ (folders : List Bytes) (name content : Bytes),
        root.at? (folders ++ [name]) = some (.file content) ∧
          (∃ s : String, name = .ofString s ∧ ".test.tmpl".toList <:+ s.toList) ∧
          n.toList = (Utf8.lossy (List.intercalate [47] folders)).toList.map
            (fun c => if c = '\\' then '/' else c) ∧
          q = p.below (folders ++ [name])) ∧
      ∀ d' root', d'.tree p = .ok root' → root.Relisted root' → discover d' p = discover d p) ∧
    ∀ c : Catalogue, select [] c = c ∧ ∀ requests, requests ≠ [] →
      (select requests c).Sublist c ∧
      (∀ e, e ∈ select requests c ↔ e ∈ c ∧ ∃ r ∈ requests, Meets r e.1) ∧
      ∀ others, others ≠ [] →
        ((∀ r, r ∈ others ↔ r ∈ requests) → select others c = select requests c) ∧
        ((∀ r ∈ others, ∀ e ∈ c, ¬ Meets r e.1) →
          select (requests ++ others) c = select requests c) ∧
        ∀ e, e ∈ select (requests ++ others) c ↔ e ∈ select requests c ∨ e ∈ select others c := by
  refine ⟨⟨sorted_discover d p, ?_, fun n q => ?_, fun d' root' hp' hlisted => ?_⟩, fun c =>
    ⟨rfl, fun requests hne => ⟨select_sublist _ _, fun e => mem_select_iff hne, fun others hne' =>
      ⟨fun hsame => ?_, fun hunknown => ?_, fun e => ?_⟩⟩⟩⟩
  · rw [discover_eq hp, fixtures_eq_map_pairs, ((pairs_ofFound _).map _).nodup_iff]
    exact nodup_found hproper p []
  · rw [discover_eq hp, (pairs_ofFound _).mem_iff, mem_found_iff hproper p []]
    simp only [isFixture_iff, List.nil_append, Prod.mk.injEq, eq_category_iff]
  · rw [discover_eq hp, discover_eq hp']
    have hfound := (perm_of_relisted hlisted p []).1
    refine (sorted_ofFound _).eq_of_perm (sorted_ofFound _)
      ((pairs_ofFound _).trans (hfound.symm.trans (pairs_ofFound _).symm)) fun x hx y hy hkey => ?_
    have hmem : ∀ x ∈ pairs (ofFound (found p [] root'.entries)), x ∈ found p [] root.entries :=
      fun x hx => hfound.mem_iff.2 ((pairs_ofFound _).mem_iff.1 hx)
    exact eq_of_key_eq hp hproper hdot (hmem x hx) (hmem y hy) hkey
  · exact select_congr hne' hne fun e _ => by simp only [hsame]
  · refine select_congr (by simp [hne]) hne fun e he => ?_
    simp only [List.mem_append, or_and_right, exists_or]
    exact or_iff_left fun ⟨r, hr, hmeets⟩ => hunknown r hr e he hmeets
  · rw [mem_select_iff (by simp [hne]), mem_select_iff hne, mem_select_iff hne', ← and_or_left]
    simp only [List.mem_append, or_and_right, exists_or]

/-- A folder that is named like a fixture and has one in it, told in two orders. -/
theorem discover_and_select_nested :
    let inner : Tree := .folder [(.ofString "a.test.tmpl", .file [])]
    let root : Tree :=
      .folder [(.ofString "b.test.tmpl", inner), (.ofString "c.test.tmpl", .file [])]
    let turned : Tree :=
      .folder [(.ofString "c.test.tmpl", .file []), (.ofString "b.test.tmpl", inner)]
    let t : Path := .ofString "t"
    let found := discover ⟨.folder [(t.octets, root)], []⟩ t
    root.Proper ∧ root.Undotted ∧ discover ⟨.folder [(t.octets, turned)], []⟩ t = found ∧
      ("b.test.tmpl", .ofString "t/b.test.tmpl/a.test.tmpl") ∈ found.pairs ∧
      select (["/b.test.tmpl"] ++ ["x"]) found = select ["/b.test.tmpl"] found := by
  intro inner root turned t found
  have hproper : root.Proper := by
    refine .folder (show List.Nodup _ by decide) (by decide) ?_
    simp only [List.forall_mem_cons, List.not_mem_nil, false_imp_iff, implies_true, and_true]
    refine ⟨.folder (List.nodup_singleton _) (by decide) ?_, .file _⟩
    simp only [List.forall_mem_singleton]
    exact .file _
  have hdot : root.Undotted := by
    refine .folder (by decide) ?_
    simp only [List.forall_mem_cons, List.not_mem_nil, false_imp_iff, implies_true, and_true]
    refine ⟨.folder (by decide) ?_, .file _⟩
    simp only [List.forall_mem_singleton]
    exact .file _
  have htree : Disk.tree ⟨.folder [(t.octets, root)], []⟩ t = .ok root := by rfl
  have hturned : Disk.tree ⟨.folder [(t.octets, turned)], []⟩ t = .ok turned := by rfl
  obtain ⟨⟨-, -, hpairs, hrelisted⟩, hselect⟩ := discover_and_select htree hproper hdot
  have hunknown : ∀ e ∈ found, matches? "x" e.1 = false := by decide +kernel
  refine ⟨hproper, hdot, hrelisted _ turned hturned (.order (.swap _ _ [])), ?_, ?_⟩
  · exact (hpairs _ _).2 ⟨[.ofString "b.test.tmpl"], .ofString "a.test.tmpl", [], rfl,
      ⟨"a.test.tmpl", rfl, by decide⟩, by decide +kernel, by decide +kernel⟩
  · refine ((((hselect found).2 _ (by simp)).2.2 ["x"] (by simp)).2.1) fun r hr e he hmeets => ?_
    obtain rfl := List.mem_singleton.1 hr
    rw [← matches?_iff, hunknown e he] at hmeets
    cases hmeets

end Discovered

end Catalogue

end Stencil
