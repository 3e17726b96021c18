import Stencil.Disk
import Stencil.Fixture.Run

/-!
# Catalogues of fixtures

The fixtures below a folder are grouped by category, which is the path of a fixture's folder from
there. Categories come in order, and so do the fixtures of each, in whatever order folders list
their entries.
-/

namespace Stencil

/-- The fixtures of each category. -/
abbrev Catalogue := List (String × List Path)

namespace Catalogue

/-- Whether a file of this name is a fixture: its name is a text with the fixtures' end. -/
def isFixture (name : Bytes) : Bool :=
  match Utf8.decode name with
  | .ok s => Verdict.suffix.toList.isSuffixOf s.toList
  | .error _ => false

/-- The category of the folder that names lead to. -/
def category (names : List Bytes) : String :=
  String.ofList ((Utf8.lossy (List.intercalate [47] names)).toList.map fun c =>
    if c = '\\' then '/' else c)

mutual

/-- The fixtures at an entry of a folder and below it, each with its category. The names lead from
the first folder to this one, which has the path `folder`. -/
def foundAt (folder : Path) (names : List Bytes) (name : Bytes) : Tree → List (String × Path)
  | .folder entries => found (folder.join ⟨name⟩) (names ++ [name]) entries
  | .file _ => if isFixture name then [(category names, folder.join ⟨name⟩)] else []

/-- The fixtures among a folder's entries and below them. -/
def found (folder : Path) (names : List Bytes) : List (Bytes × Tree) → List (String × Path)
  | [] => []
  | (name, t) :: rest => foundAt folder names name t ++ found folder names rest

end

/-- Puts a path before the first one that is not less. -/
def insertPath (p : Path) : List Path → List Path
  | [] => [p]
  | q :: rest => if p ≤ q then p :: q :: rest else q :: insertPath p rest

/-- Adds a fixture to its category. -/
def insert (c : String) (p : Path) : Catalogue → Catalogue
  | [] => [(c, [p])]
  | (d, paths) :: rest =>
    if c = d then (d, insertPath p paths) :: rest
    else if c < d then (c, [p]) :: (d, paths) :: rest
    else (d, paths) :: insert c p rest

/-- The catalogue of fixtures in any order. -/
def ofFound (fixtures : List (String × Path)) : Catalogue :=
  fixtures.foldr (fun (c, p) catalogue => insert c p catalogue) []

/-- The fixtures below the folder at a path; none if there is no folder. -/
def discover (d : Disk) (path : Path) : Catalogue :=
  match d.tree path with
  | .ok (.folder entries) => ofFound (found path [] entries)
  | _ => []

/-- The category that a request means: slashes at its ends do not count. -/
def requested (request : String) : String := Text.trimOf (· == '/') request

/-- Whether a category is the one requested or one inside it. -/
def matches? (request c : String) : Bool :=
  c == requested request || (requested request ++ "/").toList.isPrefixOf c.toList

/-- The categories requested and those inside them; all of them if there is no request. -/
def select (requests : List String) (catalogue : Catalogue) : Catalogue :=
  if requests.isEmpty then catalogue
  else catalogue.filter fun (c, _) => requests.any (matches? · c)

/-- The name under which a category is shown. -/
def title (c : String) : String := if c.isEmpty then "(root)" else c

/-- A warning for each request that no category meets. -/
def warnings (requests : List String) (catalogue : Catalogue) : List String :=
  let available := ", ".intercalate (catalogue.map fun (c, _) => title c)
  (requests.filter fun r => !(catalogue.any fun (c, _) => matches? r c)).map fun r =>
    s!"warning: category '{requested r}' not found (available: {available})"

end Catalogue

end Stencil
