import Mathlib.Tactic.SplitIfs
import Stencil.Data

/-!
# Which source of data a name is taken from

Data is loaded source by source, into variables and loops that do not share their names. So the
variable of a name is that of the last source which gives the name a variable, and the loop that of
the last source which gives it a loop. A name looks as if its last source were the only one unless
an earlier source has left the other of the two behind (`load_sees_latest`), which happens
(`earlier_variable_remains`).
-/

namespace Stencil

namespace Bindings

/-- What a template sees of a name: its value, its children, of which there are none where there is
no such loop, and its truth. -/
def sees (b : Bindings) (n : String) : Option Bytes × List Bindings × Bool :=
  (b.get? n, (b.loop? n).getD [], b.condition n)

/-- What `upper` binds counts, and where it binds nothing, what `lower` binds. -/
def Overlays (upper lower b : Bindings) : Prop :=
  ∀ n, b.get? n = (upper.get? n).or (lower.get? n) ∧ b.loop? n = (upper.loop? n).or (lower.loop? n)

variable {upper lower b : Bindings}

theorem overlays_empty (b : Bindings) : Overlays ∅ b b := fun n => by simp

theorem Overlays.set (h : Overlays upper lower b) (k : String) (v : Bytes) :
    Overlays (upper.set k v) lower (b.set k v) := by
  intro n
  by_cases hn : n = k <;> simp [hn, h n, h k]

theorem Overlays.setLoop (h : Overlays upper lower b) (k : String) (children : List Bindings) :
    Overlays (upper.setLoop k children) lower (b.setLoop k children) := by
  intro n
  by_cases hn : n = k <;> simp [hn, h n, h k]

theorem sees_eq_iff {c : Bindings} {n : String} : b.sees n = c.sees n ↔
    b.get? n = c.get? n ∧ (b.loop? n).getD [] = (c.loop? n).getD [] := by
  simp only [sees, Prod.mk.injEq]
  constructor
  · exact fun h => ⟨h.1, h.2.1⟩
  · exact fun h => ⟨h.1, h.2, by rw [condition_eq, condition_eq, h.1, h.2]⟩

/-! ## Adding a source -/

/-- Two ways to go on with one source: both fail alike, or both give a scope, the second one being
the first laid over `lower`. -/
def Alike (lower : Bindings) {ε : Type} (x y : Except ε Bindings) : Prop :=
  match x with
  | .ok c => ∃ d, y = .ok d ∧ Overlays c lower d
  | .error e => y = .error e

theorem alike_addTable : ∀ (t : Toml.Table) {upper b : Bindings}, Overlays upper lower b →
    Alike lower (upper.addTable t) (b.addTable t)
  | [], _, b, h => by simpa [Alike, addTable] using h
  | (key, v) :: rest, upper, b, h => by
    cases v with
    | array items =>
      simp only [addTable]
      rcases loopOf key items with e | children
      · rfl
      · exact alike_addTable rest (h.setLoop key children)
    | table entries => simp [Alike, addTable]
    | _ =>
      simp only [addTable]
      exact alike_addTable rest (h.set key _)

theorem Alike.mapError {ε ε' : Type} {x y : Except ε Bindings} (h : Alike lower x y) (f : ε → ε') :
    Alike lower (x.mapError f) (y.mapError f) := by
  rcases x with e | c
  · rw [show y = .error e from h]
    rfl
  · obtain ⟨d, rfl, hd⟩ := h
    exact ⟨d, rfl, hd⟩

theorem addFile_eq (files : Files) (b : Bindings) (path : Path) : b.addFile files path =
    match files.readText path with
    | .error why => .error (.unreadable path why)
    | .ok text =>
      match Toml.Document.table text with
      | .error why => .error (.notToml path why)
      | .ok table => (b.addTable table).mapError (.shape path) := by
  unfold addFile
  rcases files.readText path with why | text
  · rfl
  · rcases ht : Toml.Document.table text with why | table <;>
      simp [ht, Except.mapError, bind, Except.bind]

/-- The scope has a variable or a loop of the name. -/
def Binds (b : Bindings) (n : String) : Prop := b.get? n ≠ none ∨ b.loop? n ≠ none

theorem binds_set (b : Bindings) (n k : String) (v : Bytes) :
    (b.set k v).Binds n ↔ b.Binds n ∨ n = k := by
  by_cases hn : n = k <;> simp [Binds, hn]

theorem binds_setLoop (b : Bindings) (n k : String) (children : List Bindings) :
    (b.setLoop k children).Binds n ↔ b.Binds n ∨ n = k := by
  by_cases hn : n = k <;> simp [Binds, hn]

theorem binds_addTable {n : String} : ∀ {t : Toml.Table} {b c : Bindings}, b.addTable t = .ok c →
    (c.Binds n ↔ b.Binds n ∨ n ∈ t.map (·.1))
  | [], b, c, h => by
    simp only [addTable, Except.ok.injEq] at h
    simp [h]
  | (key, v) :: rest, b, c, h => by
    rw [List.map_cons, List.mem_cons, ← or_assoc]
    cases v with
    | array items =>
      simp only [addTable] at h
      rcases hl : loopOf key items with e | children <;> rw [hl] at h
      · cases h
      · rw [← binds_setLoop b n key children]
        exact binds_addTable h
    | table entries => simp [addTable] at h
    | _ =>
      simp only [addTable] at h
      rw [binds_addTable h, binds_set]

end Bindings

/-- A source of data. -/
inductive DataSource where
  | file (path : Path)
  | assignment (text : String)

namespace DataSource

/-- Data files and assignments as sources, in the order in which they are loaded. -/
def list (paths : List Path) (assignments : List String) : List DataSource :=
  paths.map .file ++ assignments.map .assignment

/-- Adds the source to what came before it. -/
def addTo (files : Files) (b : Bindings) : DataSource → Except DataFault Bindings
  | .file path => b.addFile files path
  | .assignment text => b.addAssignment text

/-- What sources give one after the other. -/
def load (files : Files) (sources : List DataSource) : Except DataFault Bindings :=
  sources.foldlM (addTo files) ∅

/-- What is loaded where the source is the only one. -/
def alone (files : Files) : DataSource → Except DataFault Bindings
  | .file path => Bindings.load files [path] []
  | .assignment text => Bindings.load files [] [text]

/-- The source is a file whose table has the name as a key, or assigns to the name. -/
def Defines (files : Files) (n : String) : DataSource → Prop
  | .file path => ∃ text table, files.readText path = .ok text ∧
      Toml.Document.table text = .ok table ∧ n ∈ table.map (·.1)
  | .assignment text => ∃ value, assignment? text = .ok (n, value)

variable {files : Files} {s : DataSource} {lower upper b own : Bindings} {n : String}

theorem load_eq (paths : List Path) (assignments : List String) :
    Bindings.load files paths assignments = load files (list paths assignments) := by
  simp only [Bindings.load, load, list, List.foldlM_append, List.foldlM_map]
  rfl

theorem alone_eq (files : Files) (s : DataSource) : s.alone files = s.addTo files ∅ := by
  cases s <;> simp [alone, Bindings.load, addTo]

theorem alike_addTo (s : DataSource) (h : Bindings.Overlays upper lower b) :
    Bindings.Alike lower (s.addTo files upper) (s.addTo files b) := by
  cases s with
  | file path =>
    simp only [addTo, Bindings.addFile_eq]
    rcases files.readText path with why | text
    · rfl
    · simp only
      rcases Toml.Document.table text with why | table
      · rfl
      · exact (Bindings.alike_addTable table h).mapError (DataFault.shape path)
  | assignment text =>
    simp only [addTo, Bindings.addAssignment]
    rcases assignment? text with e | ⟨name, value⟩
    · rfl
    · exact ⟨_, rfl, h.set name _⟩

/-- Adding a source that loads alone lays it over what is there. -/
theorem addTo_of_alone (h : s.alone files = .ok own) (b : Bindings) :
    ∃ c, s.addTo files b = .ok c ∧ Bindings.Overlays own b c := by
  have halike : Bindings.Alike b (s.addTo files ∅) (s.addTo files b) :=
    alike_addTo s (Bindings.overlays_empty b)
  rw [← alone_eq, h] at halike
  exact halike

theorem defines_iff (h : s.alone files = .ok own) : s.Defines files n ↔ own.Binds n := by
  rw [alone_eq] at h
  cases s with
  | file path =>
    simp only [addTo, Bindings.addFile_eq] at h
    unfold Defines
    rcases ht : files.readText path with why | text <;> rw [ht] at h
    · cases h
    · simp only at h
      rcases hd : Toml.Document.table text with why | table <;> rw [hd] at h
      · cases h
      · simp only at h
        rcases ha : (∅ : Bindings).addTable table with why | c <;> rw [ha] at h
        · cases h
        · obtain rfl := Except.ok.inj h
          rw [Bindings.binds_addTable ha]
          simp [Bindings.Binds, ht, hd]
  | assignment text =>
    simp only [addTo, Bindings.addAssignment] at h
    unfold Defines
    rcases ha : assignment? text with e | ⟨name, value⟩ <;> rw [ha] at h
    · cases h
    · obtain rfl := Except.ok.inj h
      rw [Bindings.binds_set]
      simp [Bindings.Binds, ha, eq_comm]

/-- Sources that load alone load one after the other, and what none of them defines stays as it
was. -/
theorem exists_foldlM : ∀ (sources : List DataSource) (b : Bindings),
    (∀ s ∈ sources, ∃ own, s.alone files = .ok own) →
      ∃ c, sources.foldlM (addTo files) b = .ok c ∧ ∀ n, (∀ s ∈ sources, ¬ s.Defines files n) →
        c.get? n = b.get? n ∧ c.loop? n = b.loop? n
  | [], b, _ => ⟨b, rfl, fun _ _ => ⟨rfl, rfl⟩⟩
  | s :: rest, b, h => by
    obtain ⟨⟨own, hown⟩, hrest⟩ := List.forall_mem_cons.1 h
    obtain ⟨d, hd, hover⟩ := addTo_of_alone hown b
    obtain ⟨c, hc, hkeeps⟩ := exists_foldlM rest d hrest
    refine ⟨c, by rw [List.foldlM_cons, hd]; exact hc, fun n hn => ?_⟩
    obtain ⟨hs, hn⟩ := List.forall_mem_cons.1 hn
    simp only [defines_iff hown, Bindings.Binds, ne_eq, not_or, Classical.not_not] at hs
    obtain ⟨hget, hloop⟩ := hkeeps n hn
    simp [hget, hloop, hover n, hs]

/-- Data files that all load, and assignments that all are such, load together. Of a name that is
defined at all, the last source that defines it gives the value, the children and the truth, as if
it were the only one, if and only if the sources before it have left no variable of the name where
it gives a loop, and no loop with children where it gives a variable. -/
theorem load_sees_latest (files : Files) (paths : List Path) (assignments : List String)
    (hall : ∀ s ∈ list paths assignments, ∃ own, s.alone files = .ok own) :
    ∃ b, Bindings.load files paths assignments = .ok b ∧
      ∀ n earlier s later, list paths assignments = earlier ++ s :: later → s.Defines files n →
        (∀ t ∈ later, ¬ t.Defines files n) →
        ∃ own before, s.alone files = .ok own ∧ load files earlier = .ok before ∧
          b.get? n = (own.get? n).or (before.get? n) ∧
          b.loop? n = (own.loop? n).or (before.loop? n) ∧
          (b.sees n = own.sees n ↔ (own.get? n = none → before.get? n = none) ∧
            (own.loop? n = none → (before.loop? n).getD [] = [])) := by
  obtain ⟨b, hb, -⟩ := exists_foldlM (list paths assignments) ∅ hall
  refine ⟨b, (load_eq paths assignments).trans hb, fun n earlier s later hsplit hs hlater => ?_⟩
  rw [hsplit, List.forall_mem_append, List.forall_mem_cons] at hall
  obtain ⟨hearlier, ⟨own, hown⟩, hrest⟩ := hall
  obtain ⟨before, hbefore, -⟩ := exists_foldlM earlier ∅ hearlier
  obtain ⟨d, hd, hover⟩ := addTo_of_alone hown before
  obtain ⟨c, hc, hkeeps⟩ := exists_foldlM later d hrest
  obtain rfl : c = b := by
    rw [hsplit, List.foldlM_append, hbefore] at hb
    change (s.addTo files before >>= fun d => later.foldlM (addTo files) d) = _ at hb
    rw [hd] at hb
    exact Except.ok.inj (hc.symm.trans hb)
  obtain ⟨hget, hloop⟩ := hkeeps n hlater
  rw [(hover n).1] at hget
  rw [(hover n).2] at hloop
  refine ⟨own, before, hown, hbefore, hget, hloop, ?_⟩
  rw [Bindings.sees_eq_iff, hget, hloop]
  rcases own.get? n with _ | v <;> rcases own.loop? n with _ | children <;> simp

theorem exists_of_isOk {ε α : Type} {x : Except ε α} (h : x.isOk) : ∃ a, x = .ok a := by
  rcases x with e | a
  · cases h
  · exact ⟨a, rfl⟩

/-- A variable of one file, a loop of the same name in the next one, and an assignment to another
name. -/
theorem load_sees_latest_mixed :
    let files : Files := fun path =>
      if path = .ofString "a" then .ok (.ofString "x = \"0\"\n[[y]]")
      else if path = .ofString "b" then .ok (.ofString "[[x]]\nn = 1") else .error .notFound
    let paths : List Path := [.ofString "a", .ofString "b"]
    (∀ s ∈ list paths ["y=1"], ∃ own, s.alone files = .ok own) ∧
      ∃ b own before, Bindings.load files paths ["y=1"] = .ok b ∧
        (DataSource.file (.ofString "b")).alone files = .ok own ∧
        load files [.file (.ofString "a")] = .ok before ∧
        (b.sees "x" = own.sees "x" ↔ (own.get? "x" = none → before.get? "x" = none) ∧
          (own.loop? "x" = none → (before.loop? "x").getD [] = [])) := by
  intro files paths
  have hok : ∀ s ∈ list paths ["y=1"], (s.alone files).isOk := by decide +kernel
  have hall := fun s hs => exists_of_isOk (hok s hs)
  obtain ⟨own, hown⟩ := hall (.file (.ofString "b")) (by simp [list, paths])
  have hloop : ((alone files (.file (.ofString "b"))).toOption.bind (·.loop? "x")).isSome := by
    decide +kernel
  rw [hown] at hloop
  have hdefines : (DataSource.file (.ofString "b")).Defines files "x" :=
    (defines_iff hown).2 (.inr (Option.isSome_iff_ne_none.1 hloop))
  have hother : ¬ (DataSource.assignment "y=1").Defines files "x" := by
    rintro ⟨value, h⟩
    have hy : (assignment? "y=1").toOption.map (·.1) = some "y" := by decide +kernel
    rw [h] at hy
    have hxy : "x" = "y" := Option.some.inj hy
    exact absurd hxy (by decide)
  obtain ⟨b, hb, h⟩ := load_sees_latest files paths ["y=1"] hall
  obtain ⟨own', before, hown', hbefore, -, -, hiff⟩ :=
    h "x" [.file (.ofString "a")] (.file (.ofString "b")) [.assignment "y=1"] rfl hdefines
      (by simpa using hother)
  exact ⟨hall, b, own', before, hb, hown', hbefore, hiff⟩

/-- A later source does not always replace an earlier one: the variable of an earlier file stays
beside the loop of a later one, and decides whether the name is true. -/
theorem earlier_variable_remains :
    ¬ ∀ (files : Files) (paths : List Path) (assignments : List String) (n : String)
      (earlier later : List DataSource) (s : DataSource) (b own : Bindings),
      list paths assignments = earlier ++ s :: later → s.Defines files n →
      (∀ t ∈ later, ¬ t.Defines files n) → Bindings.load files paths assignments = .ok b →
      s.alone files = .ok own → b.sees n = own.sees n := by
  intro h
  let files : Files := fun path =>
    if path = .ofString "a" then .ok (.ofString "x = \"0\"")
    else if path = .ofString "b" then .ok (.ofString "[[x]]\nn = 1") else .error .notFound
  let paths : List Path := [.ofString "a", .ofString "b"]
  have hfirst : (Bindings.load files paths []).toOption.map
      (fun b => (b.get? "x", b.condition "x")) = some (some [48], false) := by decide +kernel
  have hsecond : (alone files (.file (.ofString "b"))).toOption.map
      (fun b => (b.get? "x", b.condition "x")) = some (none, true) := by decide +kernel
  rcases hb : Bindings.load files paths [] with e | b <;> rw [hb] at hfirst
  · cases hfirst
  · rcases hown : alone files (.file (.ofString "b")) with e | own <;> rw [hown] at hsecond
    · cases hsecond
    · obtain ⟨hget, -⟩ := Prod.mk.inj (Option.some.inj hfirst)
      obtain ⟨hnone, htrue⟩ := Prod.mk.inj (Option.some.inj hsecond)
      have hdefines : (DataSource.file (.ofString "b")).Defines files "x" := by
        refine (defines_iff hown).2 (.inr fun hloop => ?_)
        rw [Bindings.condition_eq, hnone, hloop] at htrue
        cases htrue
      have hsees := h files paths [] "x" [.file (.ofString "a")] [] (.file (.ofString "b")) b own
        rfl hdefines nofun hb hown
      rw [Bindings.sees_eq_iff, hget, hnone] at hsees
      cases hsees.1

end DataSource

end Stencil
