import Mathlib.Tactic.SplitIfs
import Stencil.Disk

/-!
# What writing a file changes

To follow a path is to ask, place by place, whether there is nothing, a file or a folder
(`Tree.look`). Putting a file into a folder changes the answer at the place of the file and nowhere
else, so the path that was written leads to the new content (`files_of_write`), and every path that
leads elsewhere leads where it led, to what was there before (`files_iff_of_write`).
-/

namespace Stencil

namespace Tree

/-- The content of a file; a folder has none. -/
def content? : Tree → Option Bytes
  | .file content => some content
  | .folder _ => none

/-- What stands where the names lead to: nothing, a folder, or a file with its content. -/
def look (t : Tree) (names : List Bytes) : Option (Option Bytes) := (t.at? names).map content?

variable {t : Tree} {item : Tree} {names rest : List Bytes}

theorem at?_append : ∀ (names rest : List Bytes) (t : Tree),
    t.at? (names ++ rest) = (t.at? names).bind (at? rest)
  | [], rest, t => rfl
  | name :: names, rest, t => by
    simp only [List.cons_append, at?]
    rcases t.child? name with _ | child
    · rfl
    · exact at?_append names rest child

theorem child?_put (name : Bytes) (rest : List Bytes) (item t : Tree) (n : Bytes) :
    (put item (name :: rest) t).child? n =
      if n = name then some (put item rest ((t.child? name).getD (.folder [])))
      else t.child? n := by
  simp only [put, child?, Named.get?_put]
  cases t <;> simp [entries]

theorem at?_put_self (item : Tree) : ∀ (names : List Bytes) (t : Tree),
    (put item names t).at? names = some item
  | [], _ => rfl
  | name :: names, t => by
    rw [at?, child?_put, if_pos rfl]
    exact at?_put_self item names _

/-- Where neither list of names begins with the other one, nothing changes. -/
theorem at?_put_of_not_prefix (item : Tree) : ∀ (names places : List Bytes) (t : Tree),
    ¬ names <+: places → ¬ places <+: names → (put item names t).at? places = t.at? places
  | [], places, t, h, _ => absurd (List.nil_prefix) h
  | _ :: _, [], t, _, h => absurd (List.nil_prefix) h
  | name :: names, n :: places, t, hn, hp => by
    rw [at?, at?, child?_put]
    by_cases hname : n = name
    · subst hname
      rw [List.cons_prefix_cons] at hn hp
      simp only [true_and] at hn hp
      rw [if_pos rfl, Option.bind_some, at?_put_of_not_prefix item names places _ hn hp]
      rcases t.child? n with _ | child
      · rcases places with _ | ⟨m, places⟩
        · exact absurd (List.nil_prefix) hp
        · rfl
      · rfl
    · rw [if_neg hname]

theorem look_put_append (item : Tree) (names : List Bytes) (name : Bytes) (rest : List Bytes) :
    ∀ (t : Tree), (put item (names ++ name :: rest) t).look names = some none := by
  induction names with
  | nil => exact fun t => rfl
  | cons n names ih =>
    intro t
    rw [look, List.cons_append, at?, child?_put, if_pos rfl]
    exact ih _

theorem look_append_name {entries : List (Bytes × Tree)} (h : t.at? names = some (.folder entries))
    (name : Bytes) : t.look (names ++ [name]) = (Named.get? name entries).map content? := by
  rw [look, at?_append, h]
  change ((Named.get? name entries).bind (at? [])).map _ = _
  rcases Named.get? name entries with _ | child <;> rfl

theorem look_append_of_not_folder (h : t.look names ≠ some none) (name : Bytes)
    (rest : List Bytes) : t.look (names ++ name :: rest) = none := by
  unfold look at h ⊢
  rw [at?_append]
  rcases ht : t.at? names with _ | (content | entries) <;> rw [ht] at h
  · rfl
  · rfl
  · exact absurd rfl h

theorem look_eq_folder_of_append {name : Bytes} {c : Option Bytes}
    (h : t.look (names ++ name :: rest) = some c) : t.look names = some none := by
  refine Classical.byContradiction fun hno => ?_
  rw [look_append_of_not_folder hno] at h
  cases h

/-- Putting a file into a folder, over another file or over nothing, changes nothing but what stands
there. -/
theorem look_put (content : Bytes) {folder places : List Bytes} {name : Bytes}
    (hfolder : t.look folder = some none) (hname : t.look (folder ++ [name]) ≠ some none)
    (h : places ≠ folder ++ [name]) :
    (put (.file content) (folder ++ [name]) t).look places = t.look places := by
  by_cases hinside : folder ++ [name] <+: places
  · obtain ⟨_ | ⟨n, rest⟩, rfl⟩ := hinside
    · exact absurd (List.append_nil _) h
    · rw [look_append_of_not_folder hname]
      apply look_append_of_not_folder
      rw [look, at?_put_self]
      simp [content?]
  · by_cases haround : places <+: folder ++ [name]
    · -- places on the way to the file are folders before and after
      rcases List.prefix_concat_iff.1 haround with rfl | ⟨_ | ⟨n, rest⟩, rfl⟩
      · exact absurd rfl h
      · rw [List.append_nil] at hfolder ⊢
        rw [hfolder]
        exact look_put_append _ _ _ _ _
      · rw [look_eq_folder_of_append hfolder, List.append_assoc, List.cons_append]
        exact look_put_append _ _ _ _ _
    · rw [look, look, at?_put_of_not_prefix _ _ _ _ hinside haround]

end Tree

namespace Disk

variable {root root' : Tree} {d after : Disk} {here place names : List Bytes} {p : Path}
  {content : Bytes}

theorem follow_append (root : Tree) : ∀ (before rest here : List Bytes),
    follow root here (before ++ rest) = follow root here before >>= (follow root · rest)
  | [], rest, here => rfl
  | piece :: before, rest, here => by
    simp only [List.cons_append, follow]
    rcases root.at? here with _ | (content | entries)
    · rfl
    · rfl
    · simp only
      split_ifs
      · exact follow_append root before rest here
      · exact follow_append root before rest here.dropLast
      · rfl
      · rcases Named.get? piece entries with _ | child
        · rfl
        · exact follow_append root before rest (here ++ [piece])

theorem follow_cons (root : Tree) (here : List Bytes) (piece : Bytes) (rest : List Bytes) :
    follow root here (piece :: rest) =
      match root.look here with
      | none => .error .notFound
      | some (some _) => .error .notFolder
      | some none =>
        if Path.isBlank piece then follow root here rest
        else if piece = [46, 46] then follow root here.dropLast rest
        else if nameLimit < piece.length then .error .nameTooLong
        else if (root.look (here ++ [piece])).isSome then follow root (here ++ [piece]) rest
        else .error .notFound := by
  rw [follow, Tree.look]
  rcases h : root.at? here with _ | (content | entries)
  · rfl
  · rfl
  · simp only [Option.map_some, Tree.content?, Tree.look_append_name h]
    rcases Named.get? piece entries with _ | child <;> rfl

theorem follow_of_not_folder (h : root.look here ≠ some none) (pieces : List Bytes) :
    follow root here pieces = .ok place ↔ pieces = [] ∧ here = place := by
  rcases pieces with _ | ⟨piece, rest⟩
  · simp [follow]
  · rw [follow_cons]
    rcases hl : root.look here with _ | _ | content
    · simp
    · exact absurd hl h
    · simp

/-- Trees that differ in one place, where the second one has a file and the first one has no folder,
have their paths lead to the same places, but for a file that the first one does not have. -/
theorem follow_iff (hsame : ∀ q, q ≠ names → root'.look q = root.look q)
    (hroot : root.look names ≠ some none) (hroot' : root'.look names = some (some content))
    (hplace : place = names → root.look names ≠ none) : ∀ (pieces here : List Bytes),
      follow root' here pieces = .ok place ↔ follow root here pieces = .ok place
  | [], here => Iff.rfl
  | piece :: rest, here => by
    have ih := follow_iff hsame hroot hroot' hplace rest
    by_cases hhere : here = names
    · subst hhere
      rw [follow_of_not_folder hroot, follow_of_not_folder (by simp [hroot'])]
    · rw [follow_cons, follow_cons, hsame here hhere]
      rcases root.look here with _ | _ | _
      · exact Iff.rfl
      · by_cases hnext : here ++ [piece] = names
        · simp only [hnext, hroot', Option.isSome_some, if_true]
          rcases hnames : root.look names with _ | _ | _
          · have hother : ¬ follow root names rest = .ok place := fun h =>
              hplace ((follow_of_not_folder hroot rest).1 h).2.symm hnames
            split_ifs <;> simp [ih, hother]
          · exact absurd hnames hroot
          · simp only [Option.isSome_some, if_true]
            split_ifs <;> simp [ih]
        · simp only [hsame _ hnext]
          split_ifs <;> simp [ih]
      · exact Iff.rfl

theorem locate_of_check (d : Disk) (h : check p = .ok ()) :
    d.locate p = follow d.root (d.start p) (Path.split p.octets) := by
  rw [locate, h]
  rfl

theorem files_eq (d : Disk) (p : Path) : d.files p =
    match d.locate p with
    | .error e => .error e
    | .ok place =>
      match d.root.look place with
      | none => .error .notFound
      | some none => .error .isFolder
      | some (some content) => .ok content := by
  unfold files tree Tree.look
  rcases d.locate p with e | place
  · rfl
  · simp only [bind, Except.bind]
    rcases d.root.at? place with _ | (content | entries) <;> rfl

theorem eq_concat_of_dropWhile {pieces before : List Bytes} {name : Bytes}
    (h : pieces.reverse.dropWhile (· == []) = name :: before) (hlast : pieces.getLast? ≠ some []) :
    pieces = before.reverse ++ [name] := by
  rcases List.eq_nil_or_concat pieces with rfl | ⟨front, last, rfl⟩
  · cases h
  · have hempty : last ≠ [] := by simpa using hlast
    simp only [List.concat_eq_append, List.reverse_append, List.reverse_singleton,
      List.singleton_append, List.dropWhile_cons, beq_iff_eq, if_neg hempty] at h
    obtain ⟨rfl, rfl⟩ := List.cons.inj h
    simp

/-- What it takes to write a file: its path ends in a name, and the rest of the path leads to a
folder, which has no folder of that name. -/
theorem write_eq_ok (h : d.write p content = .ok after) :
    ∃ before name folder, check p = .ok () ∧ Path.split p.octets = before ++ [name] ∧
      Path.isBlank name = false ∧ name ≠ [46, 46] ∧ name.length ≤ nameLimit ∧
      follow d.root (d.start p) before = .ok folder ∧ d.root.look folder = some none ∧
      d.root.look (folder ++ [name]) ≠ some none ∧
      after = { d with root := .put (.file content) (folder ++ [name]) d.root } := by
  unfold write at h
  rcases hcheck : check p with e | ⟨⟩ <;> rw [hcheck] at h
  · cases h
  · simp only [bind, Except.bind] at h
    rcases hpieces : (Path.split p.octets).reverse.dropWhile (· == []) with _ | ⟨name, before⟩ <;>
      rw [hpieces] at h
    · cases h
    · simp only at h
      rcases hfollow : follow d.root (d.start p) before.reverse with e | folder <;>
        rw [hfollow] at h
      · cases h
      · simp only at h
        rcases hentries : d.root.at? folder with _ | (content | entries) <;> rw [hentries] at h
        · cases h
        · cases h
        · simp only at h
          split_ifs at h with hname hlimit
          obtain ⟨hempty, hdot, hdots⟩ : _ ∧ _ ∧ _ := by simpa only [not_or] using hname
          have hwhole := eq_concat_of_dropWhile hpieces hempty
          have hblank : Path.isBlank name = false := by
            rw [hwhole, List.getLast?_concat] at hempty
            simp [Path.isBlank, hdot, mt (congrArg some) hempty]
          have hfolder : d.root.look folder = some none := by
            rw [Tree.look, hentries]
            rfl
          refine ⟨before.reverse, name, folder, rfl, hwhole, hblank, hdots, Nat.not_lt.1 hlimit,
            hfollow, hfolder, ?_⟩
          rw [Tree.look_append_name hentries]
          rcases hchild : Named.get? name entries with _ | (content | inner) <;> rw [hchild] at h
          · exact ⟨by simp, (Except.ok.inj h).symm⟩
          · exact ⟨by simp [Tree.content?], (Except.ok.inj h).symm⟩
          · cases h

/-- A disk with a file written to it: the path leads to a place where the file is, where no folder
was, and which is the only place that differs. -/
structure Written (d : Disk) (p : Path) (content : Bytes) (after : Disk) (place : List Bytes) :
    Prop where
  home_eq : after.home = d.home
  locate_eq : after.locate p = .ok place
  look_place : after.root.look place = some (some content)
  no_folder : d.root.look place ≠ some none
  look_other : ∀ q, q ≠ place → after.root.look q = d.root.look q

theorem exists_of_write (h : d.write p content = .ok after) :
    ∃ place, Written d p content after place := by
  obtain ⟨before, name, folder, hcheck, hpieces, hblank, hdots, hlimit, hfollow, hfolder, hplace,
    rfl⟩ := write_eq_ok h
  have hself : (Tree.put (.file content) (folder ++ [name]) d.root).look (folder ++ [name]) =
      some (some content) := by
    rw [Tree.look, Tree.at?_put_self]
    rfl
  have hother : ∀ q, q ≠ folder ++ [name] → _ := fun q => Tree.look_put content hfolder hplace
  have hfront : folder ≠ folder ++ [name] := by simp
  refine ⟨folder ++ [name], rfl, ?_, hself, hplace, hother⟩
  have hway := (follow_iff hother hplace hself (absurd · hfront) before _).2 hfollow
  rw [locate_of_check _ hcheck, hpieces, follow_append]
  change follow _ (d.start p) before >>= _ = _
  rw [hway]
  change follow _ folder [name] = _
  rw [follow_cons, hother folder hfront, hfolder, hself]
  simp [hblank, hdots, Nat.not_lt.2 hlimit, follow]

theorem files_of_write (h : d.write p content = .ok after) : after.files p = .ok content := by
  obtain ⟨place, hw⟩ := exists_of_write h
  rw [files_eq, hw.locate_eq]
  simp only [hw.look_place]

theorem files_eq_ok_iff (d : Disk) (p : Path) (content : Bytes) : d.files p = .ok content ↔
    ∃ place, d.locate p = .ok place ∧ d.root.look place = some (some content) := by
  rw [files_eq]
  rcases d.locate p with e | place
  · simp
  · rcases hl : d.root.look place with _ | _ | c <;> simp [hl]

/-- Paths that do not lead to the file that has been written lead to the files they led to, with
the content they had. -/
theorem files_iff_of_write (h : d.write p content = .ok after) {q : Path}
    (hq : after.locate q ≠ after.locate p) (c : Bytes) :
    after.files q = .ok c ↔ d.files q = .ok c := by
  obtain ⟨target, hw⟩ := exists_of_write h
  have hlocate : ∀ place, (place = target → d.root.look target ≠ none) →
      (after.locate q = .ok place ↔ d.locate q = .ok place) := by
    intro place hplace
    have hstart : after.start q = d.start q := by rw [start, start, hw.home_eq]
    rcases hcheck : check q with e | ⟨⟩
    · rw [locate, locate, hcheck]
      exact Iff.rfl
    · rw [locate_of_check _ hcheck, locate_of_check _ hcheck, hstart]
      exact follow_iff hw.look_other hw.no_folder hw.look_place hplace _ _
  rw [hw.locate_eq] at hq
  simp only [files_eq_ok_iff]
  constructor
  · rintro ⟨place, hplace, hlook⟩
    have hne : place ≠ target := fun heq => hq (heq ▸ hplace)
    exact ⟨place, (hlocate place (absurd · hne)).1 hplace, hw.look_other place hne ▸ hlook⟩
  · rintro ⟨place, hplace, hlook⟩
    have hthere := (hlocate place fun heq => by simp [← heq, hlook]).2 hplace
    have hne : place ≠ target := fun heq => hq (heq ▸ hthere)
    exact ⟨place, hthere, (hw.look_other place hne).trans hlook⟩

end Disk

end Stencil
