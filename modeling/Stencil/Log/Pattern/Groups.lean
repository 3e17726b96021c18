import Stencil.Log.Pattern.Brackets
import Stencil.Text.Alphanumeric

/-!
# Groups and whole expressions

An expression is read from its first character to its last one. What is open is kept in a list, the
innermost group first.
-/

namespace Stencil.Log.Pattern

/-! ### What opens a group -/

/-- What a bracket and the characters behind it begin. -/
inductive Opening where
  /-- A group, with a name or without one. -/
  | group (name : Option (List Char)) (f : Flags) (rest : List Char)
  /-- Flags for what follows. -/
  | flags (f : Flags) (rest : List Char)

/-- Whether characters are a group's name. -/
def isName : List Char → Bool
  | [] => false
  | c :: cs =>
    (c == '_' || Text.isAlphabetic c)
      && cs.all fun c => ['_', '.', '[', ']'].contains c || Text.isAlphanumeric c

/-- The letters of flags. -/
def flagLetters : List Char := ['i', 'm', 's', 'U', 'u', 'R', 'x']

/-- Whether characters are flags: letters to turn on, and behind a dash letters to turn off, none of
them twice. -/
def areFlags (cs : List Char) : Bool :=
  cs.all (fun c => c == '-' || flagLetters.contains c) && cs.Nodup && cs.getLast? != some '-'

/-- What flags say of a letter. -/
def stateOf (letter : Char) (cs : List Char) : Option Bool :=
  if cs.contains letter then some (!(cs.takeWhile (· != letter)).contains '-') else none

/-- What flags turn on or off. -/
def Flags.ofLetters? (cs : List Char) : Option Flags :=
  if areFlags cs then some ⟨stateOf 'i' cs, stateOf 'u' cs, stateOf 'x' cs⟩ else none

/-- Reads a group's name, up to the bracket behind it. -/
def groupName? (cs : List Char) : Option Opening :=
  match cs.span (· ≠ '>') with
  | (name, '>' :: rest) => if isName name then some (.group (some name) .unchanged rest) else none
  | _ => none

/-- Reads what follows an opening bracket. -/
def opening? : List Char → Option Opening
  | '?' :: 'P' :: '<' :: cs => groupName? cs
  | '?' :: '<' :: cs => groupName? cs
  | '?' :: cs =>
    match cs.span fun c => c != ':' && c != ')' with
    | (letters, ':' :: rest) => (Flags.ofLetters? letters).map (.group none · rest)
    | (letters, ')' :: rest) =>
      if letters.isEmpty then none else (Flags.ofLetters? letters).map (.flags · rest)
    | _ => none
  | cs => some (.group none .unchanged cs)

/-! ### Reading an expression -/

/-- The part of a group or of the whole that has been read. -/
structure Level where
  /-- The branches that are complete, the last one first. -/
  branches : List Expression
  /-- What the branch at hand holds, the last part first. -/
  parts : List Expression

namespace Level

/-- Nothing has been read. -/
def empty : Level := ⟨[], []⟩

/-- The level with one more part. -/
def add (l : Level) (e : Expression) : Level := { l with parts := e :: l.parts }

/-- The level with a new branch. -/
def branch (l : Level) : Level := ⟨.sequence l.parts.reverse :: l.branches, []⟩

/-- What has been read. -/
def expression (l : Level) : Expression :=
  if l.branches.isEmpty then .sequence l.parts.reverse else .choice l.branch.branches.reverse

/-- The level with its last part repeated. There is none after which nothing can be repeated. -/
def repeated? (l : Level) : Option Level :=
  match l.parts with
  | [] | .flags _ :: _ => none
  | e :: rest => some { l with parts := .repeated e :: rest }

end Level

/-- A group that has not been closed yet. -/
structure OpenGroup where
  /-- What stands before it. -/
  before : Level
  flags : Flags
  /-- Whether the expression is spaced behind it. -/
  spaced : Bool

/-- Reads an expression to its end, in at most so many steps. The groups around what is read are in
`outer`, the closest first, and their names and those of all groups before in `names`. -/
def read? :
    (steps : Nat) → (names : List (List Char)) → (spaced : Bool) → (outer : List OpenGroup) →
      Level → List Char → Option Expression
  | 0, _, _, _, _, _ => none
  | steps + 1, names, spaced, outer, l, cs =>
    match skip spaced cs with
    | [] => if outer.isEmpty then some l.expression else none
    | '(' :: cs =>
      match opening? (skip spaced cs) with
      | some (.flags f rest) =>
        read? steps names (f.spaced.getD spaced) outer (l.add (.flags f)) rest
      | some (.group name f rest) =>
        if name.any names.contains then none
        else
          read? steps (name.toList ++ names) (f.spaced.getD spaced) (⟨l, f, spaced⟩ :: outer)
            .empty rest
      | none => none
    | ')' :: cs =>
      match outer with
      | [] => none
      | g :: outer =>
        read? steps names g.spaced outer (g.before.add (.group g.flags l.expression)) cs
    | '|' :: cs => read? steps names spaced outer l.branch cs
    | '[' :: cs =>
      let (o, rest) := OpenSet.opened spaced cs
      match charSet? spaced steps [] o rest with
      | some (e, rest) => read? steps names spaced outer (l.add e) rest
      | none => none
    | '\\' :: cs =>
      match escape? spaced cs with
      | some (e, rest) => read? steps names spaced outer (l.add e) rest
      | none => none
    | '.' :: cs => read? steps names spaced outer (l.add .any) cs
    | c :: cs =>
      if ['*', '+', '?'].contains c then
        match l.repeated? with
        | some l => read? steps names spaced outer l (if cs.head? = some '?' then cs.drop 1 else cs)
        | none => none
      else if c = '\x7b' then none
      else
        let e := if ['^', '$'].contains c then .anchor else .letter (.plain c)
        read? steps names spaced outer (l.add e) cs

/-- The expression that characters write. -/
def Expression.ofChars? (cs : List Char) : Option Expression :=
  read? (cs.length + 1) [] false [] .empty cs

end Stencil.Log.Pattern
