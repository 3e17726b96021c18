import Stencil.Proofs.SortedCatalogues

/-!
# The order of paths below a folder

The pieces of a joined path are those of the folder and the name, so the order compares paths below
one folder name by name, and tells different ones apart (`below_inj`).
-/

namespace Stencil

variable {α : Type} [DecidableEq α]

theorem pieces_ne_nil (mark : α) : ∀ l : List α, pieces mark l ≠ []
  | [] => List.cons_ne_nil _ _
  | a :: rest => by
    rw [pieces]
    split_ifs
    · exact List.cons_ne_nil _ _
    · split <;> exact List.cons_ne_nil _ _

/-- A mark cuts a list in two. -/
theorem pieces_append_cons (mark : α) (m : List α) : ∀ l : List α,
    pieces mark (l ++ mark :: m) = pieces mark l ++ pieces mark m
  | [] => by simp [pieces]
  | a :: rest => by
    rw [List.cons_append, pieces, pieces, pieces_append_cons mark m rest]
    split_ifs
    · rfl
    · rcases h : pieces mark rest with _ | ⟨piece, more⟩
      · exact absurd h (pieces_ne_nil mark rest)
      · rfl

theorem pieces_of_not_mem {mark : α} : ∀ {l : List α}, mark ∉ l → pieces mark l = [l]
  | [], _ => rfl
  | a :: rest, h => by
    obtain ⟨ha, hrest⟩ := not_or.1 (List.mem_cons.not.1 h)
    rw [pieces, if_neg (Ne.symm ha), pieces_of_not_mem hrest]

/-- The first piece is all there is, or a mark follows it. -/
theorem eq_of_pieces_eq_cons {mark : α} : ∀ {l piece : List α} {more : List (List α)},
    pieces mark l = piece :: more → l = piece ∨ ∃ rest, l = piece ++ mark :: rest
  | [], piece, more, h => .inl (List.cons.inj h).1
  | a :: rest, piece, more, h => by
    rw [pieces] at h
    split_ifs at h with ha
    · obtain ⟨rfl, -⟩ := List.cons.inj h
      exact .inr ⟨rest, by rw [ha]; rfl⟩
    · rcases hrest : pieces mark rest with _ | ⟨first, others⟩
      · exact absurd hrest (pieces_ne_nil mark rest)
      · rw [hrest] at h
        obtain ⟨rfl, -⟩ := List.cons.inj h
        rcases eq_of_pieces_eq_cons hrest with rfl | ⟨back, rfl⟩
        · exact .inl rfl
        · exact .inr ⟨back, rfl⟩

namespace Path

/-- The name of an entry of a folder: it has octets, no slash is among them, and it is not what the
folder itself is called. -/
structure IsName (name : Bytes) : Prop where
  ne_nil : name ≠ []
  no_slash : 47 ∉ name
  not_dot : name ≠ [46]

variable {p : Path} {name : Bytes} {names : List Bytes}

theorem IsName.split_eq (h : IsName name) : split name = [name] := pieces_of_not_mem h.no_slash

theorem IsName.not_blank (h : IsName name) : isBlank name = false := by
  simp [isBlank, h.ne_nil, h.not_dot]

theorem split_append_slash (bs cs : Bytes) : split (bs ++ 47 :: cs) = split bs ++ split cs :=
  pieces_append_cons 47 cs bs

theorem split_slash (cs : Bytes) : split (47 :: cs) = [] :: split cs := split_append_slash [] cs

theorem key_eq (p : Path) : p.key =
    (if p.isAbsolute then [[0]] else if (split p.octets).head? = some [46] then [[1]] else []) ++
      ((split p.octets).filter (!isBlank ·)).map partKey := by
  have hkey : p.key = (if p.frontAndPieces.1 = [47] then [[0]]
      else if p.frontAndPieces.1 = [46] then [[1]] else []) ++
        (p.frontAndPieces.2.filter (!isBlank ·)).map partKey := rfl
  have hblank : isBlank [] = true ∧ isBlank [46] = true := ⟨rfl, rfl⟩
  rw [hkey, frontAndPieces, isAbsolute]
  split
  · rename_i rest h
    simp [h, split_slash, hblank.1]
  · rename_i h
    rw [h]
    rfl
  · rename_i rest h
    rw [h, show split (46 :: 47 :: rest) = [46] :: split rest from split_append_slash [46] rest]
    simp [hblank]
  · rename_i hslash hdot hdots
    have habsolute : p.octets.head? ≠ some 47 := fun h => by
      obtain ⟨rest, hrest⟩ := List.head?_eq_some_iff.1 h
      exact hslash rest hrest
    have hhead : (split p.octets).head? ≠ some [46] := fun h => by
      obtain ⟨more, hmore⟩ := List.head?_eq_some_iff.1 h
      rcases eq_of_pieces_eq_cons hmore with heq | ⟨rest, heq⟩
      · exact hdot heq
      · exact hdots rest heq
    simp [habsolute, hhead]

/-- The path of a folder ends in a slash, or one is put behind it. -/
theorem stem_cases (hp : p.octets ≠ []) :
    (∃ bs, p.octets = bs ++ [47] ∧ p.stem = p.octets) ∨ p.stem = p.octets ++ [47] := by
  have hlast : p.octets.getLast? = some (p.octets.getLast hp) := List.getLast?_eq_some_getLast hp
  by_cases hslash : p.octets.getLast hp = 47
  · obtain ⟨bs, hbs⟩ := List.getLast?_eq_some_iff.1 (hslash ▸ hlast)
    exact .inl ⟨bs, hbs, by simp [stem, join, isAbsolute, hlast, hslash]⟩
  · exact .inr (stem_of_getLast? hlast hslash)

/-- The pieces of a joined path are those of the folder, but for an empty one at the end, and the
name. -/
theorem split_join (hp : p.octets ≠ []) (hname : IsName name) : ∃ front, front ≠ [] ∧
    split (p.join ⟨name⟩).octets = front ++ [name] ∧
    (split p.octets = front ∨ split p.octets = front ++ [[]]) := by
  rw [join_octets p hname.no_slash]
  rcases stem_cases hp with ⟨bs, hbs, hstem⟩ | hstem
  · refine ⟨split bs, pieces_ne_nil 47 bs, ?_, .inr ?_⟩
    · rw [hstem, hbs, List.append_assoc, List.singleton_append, split_append_slash, hname.split_eq]
    · rw [hbs, split_append_slash]
      rfl
  · refine ⟨split p.octets, pieces_ne_nil 47 _, ?_, .inl rfl⟩
    rw [hstem, List.append_assoc, List.singleton_append, split_append_slash, hname.split_eq]

theorem isAbsolute_join (hp : p.octets ≠ []) (hname : IsName name) :
    (p.join ⟨name⟩).isAbsolute = p.isAbsolute := by
  rw [isAbsolute, isAbsolute, join_octets p hname.no_slash]
  rcases stem_cases hp with ⟨-, -, hstem⟩ | hstem <;>
    rw [hstem] <;> simp [List.head?_append_of_ne_nil _ hp]

theorem key_join (hp : p.octets ≠ []) (hname : IsName name) :
    (p.join ⟨name⟩).key = p.key ++ [partKey name] := by
  obtain ⟨front, hne, hjoin, hsplit⟩ := split_join hp hname
  have hhead : (split p.octets).head? = front.head? := by
    rcases hsplit with h | h <;> simp [h, List.head?_append_of_ne_nil _ hne]
  have hparts : (split p.octets).filter (!isBlank ·) = front.filter (!isBlank ·) := by
    rcases hsplit with h | h
    · rw [h]
    · simp [h, show isBlank [] = true from rfl]
  rw [key_eq, key_eq p, isAbsolute_join hp hname, hjoin, hhead, hparts,
    List.head?_append_of_ne_nil _ hne]
  simp [hname.not_blank]

/-- The path that names lead to from a folder. -/
def below (p : Path) (names : List Bytes) : Path := names.foldl (fun q name => q.join ⟨name⟩) p

theorem below_cons (p : Path) (name : Bytes) (names : List Bytes) :
    p.below (name :: names) = (p.join ⟨name⟩).below names := rfl

theorem key_below : ∀ {names : List Bytes} {p : Path}, p.octets ≠ [] →
    (∀ name ∈ names, IsName name) → (p.below names).key = p.key ++ names.map partKey
  | [], p, _, _ => by simp [below]
  | name :: rest, p, hp, hnames => by
    obtain ⟨hname, hrest⟩ := List.forall_mem_cons.1 hnames
    have hjoin : (p.join ⟨name⟩).octets ≠ [] := by
      simp [join_octets p hname.no_slash, hname.ne_nil]
    rw [below_cons, key_below hjoin hrest, key_join hp hname, List.map_cons, List.append_assoc,
      List.singleton_append]

theorem partKey_injective : Function.Injective partKey := by
  intro name other h
  unfold partKey at h
  split_ifs at h with hname hother hother
  · rw [hname, hother]
  · simp at h
  · simp at h
  · exact List.map_injective_iff.2 (fun _ _ => UInt8.toNat_inj.1) (List.cons.inj h).2

/-- Paths below one folder that are at the same place of the order are the same path. -/
theorem below_inj (hp : p.octets ≠ []) {others : List Bytes} (h : ∀ name ∈ names, IsName name)
    (h' : ∀ name ∈ others, IsName name) (hkey : (p.below names).key = (p.below others).key) :
    names = others := by
  rw [key_below hp h, key_below hp h', List.append_cancel_left_eq] at hkey
  exact List.map_injective_iff.2 partKey_injective hkey

end Path

end Stencil
