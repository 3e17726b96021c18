import Stencil.Files
import Stencil.Named

/-!
# Disks

A disk is a tree of folders and files, with a folder that relative paths start from. A path is
followed piece by piece; whatever is not its last piece has to be a folder.
-/

namespace Stencil

/-- A file, or a folder with its entries in the order in which they are listed. -/
inductive Tree where
  | file (content : Bytes)
  | folder (entries : List (Bytes × Tree))
  deriving Repr, Inhabited

namespace Tree

/-- The entry of a folder that has the name. -/
def child? (t : Tree) (name : Bytes) : Option Tree :=
  match t with
  | .file _ => none
  | .folder entries => Named.get? name entries

/-- What the names lead to, from folder to folder. -/
def at? : List Bytes → Tree → Option Tree
  | [], t => some t
  | name :: rest, t => (t.child? name).bind (at? rest)

/-- The entries of a folder. -/
def entries : Tree → List (Bytes × Tree)
  | .file _ => []
  | .folder entries => entries

/-- Puts a tree where the names lead to, and makes the folders on the way. -/
def put (item : Tree) : List Bytes → Tree → Tree
  | [], _ => item
  | name :: rest, t =>
    .folder (Named.put name (put item rest ((t.child? name).getD (.folder []))) t.entries)

end Tree

/-- A tree with a folder that relative paths start from. -/
structure Disk where
  root : Tree
  /-- The names that lead from the root to the current folder. -/
  home : List Bytes
  deriving Repr, Inhabited

namespace Disk

/-- The longest name that a folder can hold has 255 octets. -/
def nameLimit : Nat := 255

/-- The longest path has 4095 octets. -/
def pathLimit : Nat := 4095

/-- Follows pieces of a path from the folder that the names in `here` lead to. -/
def follow (root : Tree) : (here : List Bytes) → List Bytes → Except FileFault (List Bytes)
  | here, [] => .ok here
  | here, piece :: rest =>
    match root.at? here with
    | none => .error .notFound
    | some (.file _) => .error .notFolder
    | some (.folder entries) =>
      if Path.isBlank piece then follow root here rest
      else if piece = [46, 46] then follow root here.dropLast rest
      else if nameLimit < piece.length then .error .nameTooLong
      else
        match Named.get? piece entries with
        | some _ => follow root (here ++ [piece]) rest
        | none => .error .notFound

/-- A path has to have an octet and no zero octet, and must not be too long. -/
def check (p : Path) : Except FileFault Unit :=
  if p.octets.contains 0 then .error .zeroInPath
  else if p.octets.isEmpty then .error .notFound
  else if pathLimit < p.octets.length then .error .nameTooLong
  else .ok ()

/-- The names of the folder that a path starts from. -/
def start (d : Disk) (p : Path) : List Bytes := if p.isAbsolute then [] else d.home

/-- The names that lead from the root to what a path stands for. -/
def locate (d : Disk) (p : Path) : Except FileFault (List Bytes) := do
  check p
  follow d.root (d.start p) (Path.split p.octets)

/-- What a path stands for. -/
def tree (d : Disk) (p : Path) : Except FileFault Tree := do
  let place ← d.locate p
  match d.root.at? place with
  | some t => return t
  | none => throw .notFound

/-- The content of the file at a path. -/
def files (d : Disk) : Files := fun p => do
  match ← d.tree p with
  | .file content => return content
  | .folder _ => throw .isFolder

/-- Whether there is a file at the path. -/
def isFile (d : Disk) (p : Path) : Bool :=
  match d.tree p with
  | .ok (.file _) => true
  | _ => false

/-- Writes a file, over the one at the path if there is one. The folder that it goes to has to be
there, and the path has to end in a name. -/
def write (d : Disk) (p : Path) (content : Bytes) : Except FileFault Disk := do
  check p
  let pieces := Path.split p.octets
  match pieces.reverse.dropWhile (· == []) with
  | [] => throw .isFolder
  | name :: before => do
    let folder ← follow d.root (d.start p) before.reverse
    match d.root.at? folder with
    | none => throw .notFound
    | some (.file _) => throw .notFolder
    | some (.folder entries) =>
      if pieces.getLast? = some [] ∨ name = [46] ∨ name = [46, 46] then throw .isFolder
      else if nameLimit < name.length then throw .nameTooLong
      else
        match Named.get? name entries with
        | some (.folder _) => throw .isFolder
        | _ => return { d with root := .put (.file content) (folder ++ [name]) d.root }

end Disk

end Stencil
