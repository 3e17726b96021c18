import Stencil.Command.Arguments
import Stencil.Render
import Stencil.Text.Digits

/-!
# Command lines

A command line names a command, with settings for all commands before or behind its name and the
command's own arguments behind it. Where the first operand is no command, a template is meant, and
it is rendered.
-/

namespace Stencil.Command

/-- What to render, with which data, and where to. -/
structure RenderOptions where
  template : Path
  data : List Path
  /-- Assignments of the form `NAME=VALUE`. -/
  assignments : List String
  /-- A file that is rendered first and bound to a variable. -/
  content : Option Path
  contentName : String
  includeDir : Option Path
  maxDepth : Nat
  output : Option Path
  deriving DecidableEq, Repr

/-- What to check. -/
structure CheckOptions where
  template : Path
  /-- Whether the tags are listed. -/
  tags : Bool
  deriving DecidableEq, Repr

/-- Which fixtures to run. -/
structure TestOptions where
  path : Path
  categories : List String
  /-- Whether the categories are listed instead. -/
  listCategories : Bool
  deriving DecidableEq, Repr

/-- A command with its options. -/
inductive Job where
  | render (o : RenderOptions)
  | check (o : CheckOptions)
  | test (o : TestOptions)
  deriving DecidableEq, Repr

/-- A command line that leads to a run. -/
structure Invocation where
  plain : Bool
  /-- How often more of the log is asked for. -/
  verbosity : Nat
  job : Job
  deriving DecidableEq, Repr

/-- The names of the commands. -/
def names : List String := ["render", "check", "test", "help"]

/-- Whether a text begins with a dash. -/
def hasDash (text : String) : Bool := text.toList.head? == some '-'

/-- The arguments with `render` put before the first operand, unless that names a command. -/
def withCommand : List String → List String
  | [] => []
  | text :: rest =>
    if hasDash text then text :: withCommand rest
    else if names.contains text then text :: rest
    else "render" :: text :: rest

/-- Any value will do. -/
def anyValue (_ : String) : Bool := true

/-- Paths are not empty. -/
def pathValue (text : String) : Bool := !text.isEmpty

/-- The greatest limit of levels that can be given. -/
def depthLimit : Nat := 18446744073709551615

/-- The limit of levels that a text writes. -/
def depth? (text : String) : Option Nat := (Text.number? text).filter (· ≤ depthLimit)

/-- The settings of all commands. -/
def commonSettings : List Setting :=
  [⟨"no-color", none, .flag, anyValue⟩, ⟨"verbose", some 'v', .counted, anyValue⟩,
    ⟨"help", some 'h', .help, anyValue⟩]

/-- What may stand before the name of the command. -/
def commonSignature : Signature :=
  ⟨commonSettings ++ [⟨"version", some 'V', .version, anyValue⟩], 0, anyValue⟩

/-- The arguments of `render`. -/
def renderSignature : Signature :=
  ⟨commonSettings ++
    [⟨"data", some 'd', .repeated, pathValue⟩, ⟨"var", none, .repeated, anyValue⟩,
      ⟨"content", none, .single, pathValue⟩, ⟨"content-var", none, .single, anyValue⟩,
      ⟨"include-dir", some 'I', .single, pathValue⟩,
      ⟨"max-depth", none, .single, fun s => (depth? s).isSome⟩,
      ⟨"output", some 'o', .single, pathValue⟩], 1, pathValue⟩

/-- The arguments of `check`. -/
def checkSignature : Signature :=
  ⟨commonSettings ++ [⟨"tags", none, .flag, anyValue⟩], 1, pathValue⟩

/-- The arguments of `test`. -/
def testSignature : Signature :=
  ⟨commonSettings ++
    [⟨"category", some 'c', .repeated, anyValue⟩, ⟨"list-categories", none, .flag, anyValue⟩],
    1, anyValue⟩

/-- The only operand. -/
def operand (g : Given) : Except Stop String :=
  match g.operands with
  | text :: _ => .ok text
  | [] => .error (.usage .missingOperand)

/-- The options of `render`. -/
def RenderOptions.ofGiven (g : Given) : Except Stop RenderOptions :=
  (operand g).map fun template =>
    { template := .ofString template
      data := (g.values "data").map .ofString
      assignments := g.values "var"
      content := (g.value? "content").map .ofString
      contentName := (g.value? "content-var").getD "CONTENT"
      includeDir := (g.value? "include-dir").map .ofString
      maxDepth := ((g.value? "max-depth").bind depth?).getD Renderer.standard.maxDepth
      output := (g.value? "output").map .ofString }

/-- The options of `check`. -/
def CheckOptions.ofGiven (g : Given) : Except Stop CheckOptions :=
  (operand g).map fun template => { template := .ofString template, tags := g.has "tags" }

/-- The options of `test`. -/
def TestOptions.ofGiven (g : Given) : Except Stop TestOptions :=
  (operand g).map fun path =>
    { path := .ofString path
      categories := g.values "category"
      listCategories := g.has "list-categories" }

/-- Reads the arguments behind a command's name. -/
def readJob (name : String) (args : List String) : Except Stop (Given × Job) :=
  match name with
  | "render" => do
    let g ← renderSignature.read args
    return (g, .render (← RenderOptions.ofGiven g))
  | "check" => do
    let g ← checkSignature.read args
    return (g, .check (← CheckOptions.ofGiven g))
  | "test" => do
    let g ← testSignature.read args
    return (g, .test (← TestOptions.ofGiven g))
  | "help" =>
    match args with
    | [] => .error .help
    | [text] =>
      if names.contains text then .error .help else .error (.usage (.unknownCommand text))
    | _ :: text :: _ => .error (.usage (.unknownCommand text))
  | name => .error (.usage (.unknownCommand name))

/-- Reads a command line. Of a setting that is given on both sides of the command's name, what is
given behind it counts. -/
def Invocation.read (args : List String) : Except Stop Invocation := do
  let (before, rest) := (withCommand args).span Signature.isSetting
  if before.contains "--" then
    discard (commonSignature.read (before.takeWhile (· ≠ "--")))
    throw (.usage .missingCommand)
  let common ← commonSignature.read before
  match rest with
  | [] => throw (.usage .missingCommand)
  | name :: args => do
    let (own, job) ← readJob name args
    return {
      plain := common.has "no-color" || own.has "no-color"
      verbosity := if own.has "verbose" then own.count "verbose" else common.count "verbose"
      job }

end Stencil.Command
