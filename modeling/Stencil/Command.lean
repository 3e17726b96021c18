import Stencil.Command.Options
import Stencil.Diagnostic
import Stencil.Fixture.Suite

/-!
# Commands

A run of the program, from its arguments and the disk to its exit code, its output, what it has to
say beside that, and the disk afterwards.
-/

namespace Stencil.Command

/-- What a run gives. -/
structure Outcome where
  code : Nat
  output : Bytes
  notices : List Notice
  disk : Disk

namespace Outcome

/-- A run that fails and leaves the disk as it is. -/
def failure (disk : Disk) (notices : List Notice) : Outcome := ⟨1, [], notices, disk⟩

/-- Notices that come before all others. -/
def after (notices : List Notice) (o : Outcome) : Outcome :=
  { o with notices := notices ++ o.notices }

end Outcome

/-! ### Rendering -/

namespace RenderOptions

/-- The renderer of a file: other files are looked up in the directory that is given, or else
beside it. -/
def renderer (o : RenderOptions) (file : Path) : Renderer :=
  ⟨o.includeDir.getD (file.parent?.getD (.ofString ".")), o.maxDepth⟩

/-- Renders the content, if there is one, and binds it. -/
def bindContent (o : RenderOptions) (files : Files) (b : Bindings) : Rendering Bindings :=
  match o.content with
  | none => pure b
  | some content => do
    let out ← (o.renderer content).renderFile files content b
    .note (.boundContent o.contentName out.size)
    return b.setOwned o.contentName out.bytes

/-- Renders the template, after the content. -/
def rendering (o : RenderOptions) (files : Files) (b : Bindings) : Rendering Chain := do
  let b ← o.bindContent files b
  (o.renderer o.template).renderFile files o.template b

/-- Puts the output where it is to go. -/
def deliver (o : RenderOptions) (disk : Disk) (out : Chain) : Outcome :=
  match o.output with
  | none => ⟨0, out.bytes, [], disk⟩
  | some target =>
    match disk.write target out.bytes with
    | .ok disk => ⟨0, [], [], disk⟩
    | .error why =>
      .failure disk [.line s!"error: cannot write to {target.text}: {why.message}"]

/-- Loads the data, renders and puts the output where it is to go. -/
def run (o : RenderOptions) (disk : Disk) : Outcome :=
  match Bindings.load disk.files o.data o.assignments with
  | .error e => .failure disk [.line ("error: " ++ e.message)]
  | .ok b =>
    let r := o.rendering disk.files b
    .after (r.events.map .log) <|
      match r.result with
      | .ok out => o.deliver disk out
      | .error e => .failure disk ((e.report disk.files).map .line)

end RenderOptions

/-! ### Checking -/

namespace CheckOptions

/-- A number, with spaces behind it up to a width. -/
def column (width n : Nat) : String :=
  let digits := toString n
  digits ++ String.ofList (List.replicate (width - digits.length) ' ')

/-- The indentation of a tag. An else stands as far left as its block's own tags. -/
def indent (tag : Tag) (depth : Nat) : String :=
  let levels := if tag.kind = .elseMark then depth - 1 else depth
  String.ofList (List.replicate (2 * levels) ' ')

/-- The line of a tag: its index, its text, its span and its partners. -/
def tagLine (i : Nat) (tag : LinkedTag) (depth : Nat) : String :=
  let divider :=
    match tag.link.bind (·.divider) with
    | some j => s!" else=#{j}"
    | none => ""
  let closing :=
    match tag.link with
    | some link => s!" close=#{link.closing}"
    | none => ""
  s!"#{column 3 i} {indent tag.toTag depth}{tag.text} @{tag.span.start}..{tag.span.stop}"
    ++ divider ++ closing

/-- The lines of tags, the first of which has the index `i` and stands inside `depth` blocks. -/
def tagLines : (i depth : Nat) → List LinkedTag → List String
  | _, _, [] => []
  | i, depth, tag :: rest =>
    let depth := if tag.closes && tag.kind.isBlock then depth - 1 else depth
    let inner := if tag.opensBlock then depth + 1 else depth
    tagLine i tag depth :: tagLines (i + 1) inner rest

/-- Reads the template and tells what is wrong with its blocks, or that nothing is. -/
def run (o : CheckOptions) (disk : Disk) : Outcome :=
  match disk.files o.template with
  | .error why =>
    .failure disk [.line s!"error: cannot read '{o.template.text}': {why.message}"]
  | .ok source =>
    match Template.parse source with
    | .error faults =>
      .failure disk <| (faults.flatMap fun e =>
        (Diagnostic.ofBlockFault o.template source e).lines).map .line
    | .ok t =>
      let listing := if o.tags then tagLines 0 0 t.tags else []
      ⟨0, .ofString (String.join (listing.map (· ++ "\n"))),
        [.line s!"ok: {o.template.text} parsed successfully ({t.tags.length} tags)"], disk⟩

end CheckOptions

/-! ### Testing -/

namespace TestOptions

/-- What is said where no fixture is found. -/
def nothingFound (o : TestOptions) : Notice :=
  .line s!"no {Verdict.suffix} files found in {o.path.text}"

/-- Lists the categories. -/
def listing (o : TestOptions) (disk : Disk) : List Notice :=
  if disk.isFile o.path then [.line "(single file, no categories)"]
  else
    match Catalogue.discover disk o.path with
    | [] => [o.nothingFound]
    | catalogue =>
      .line "available categories:" :: catalogue.map fun (c, paths) =>
        .line s!"  {Catalogue.title c} ({paths.length} tests)"

/-- Runs fixtures and reports on them. -/
def results (paint : Paint) (single : Bool) (disk : Disk) (catalogue : Catalogue) : Outcome :=
  let r := catalogue.run disk.files
  ⟨if r.green then 0 else 1, [], r.report paint single, disk⟩

/-- Runs a single fixture, or those of the requested categories. -/
def runFixtures (o : TestOptions) (paint : Paint) (disk : Disk) : Outcome :=
  if disk.isFile o.path then results paint true disk [("", [o.path])]
  else
    match Catalogue.discover disk o.path with
    | [] => .failure disk [o.nothingFound]
    | catalogue =>
      let warnings := if o.categories.isEmpty then [] else catalogue.warnings o.categories
      .after (warnings.map .line) <|
        match catalogue.select o.categories with
        | [] => .failure disk [.line "no matching categories found"]
        | selection => results paint false disk selection

/-- Lists the categories or runs fixtures. -/
def run (o : TestOptions) (paint : Paint) (disk : Disk) : Outcome :=
  if o.listCategories then ⟨0, [], o.listing disk, disk⟩ else o.runFixtures paint disk

end TestOptions

/-! ### Running -/

/-- Runs a command. -/
def Job.run (job : Job) (paint : Paint) (disk : Disk) : Outcome :=
  match job with
  | .render o => o.run disk
  | .check o => o.run disk
  | .test o => o.run paint disk

/-- The name and the version of the program. -/
def versionText : String := "tmpl 0.1.0\n"

/-- How the program is used. -/
def usageText : String :=
  "TMPL template renderer\n\nUsage: tmpl [--no-color] [-v] COMMAND\n\n" ++
  "  render TEMPLATE [-d FILE] [--var NAME=VALUE] [--content FILE] [--content-var NAME]\n" ++
  "                  [-I DIR] [--max-depth N] [-o FILE]\n" ++
  "  check TEMPLATE [--tags]\n  test PATH [-c CATEGORY] [--list-categories]\n"

/-- What the run of a command line says, of which the log's part is filtered. -/
structure Report where
  filter : Log.Filter
  outcome : Outcome

/-- What comes of arguments that do not lead to a run. -/
def Stop.outcome (disk : Disk) : Stop → Outcome
  | .usage e => ⟨2, [], [.line ("error: " ++ e.message)], disk⟩
  | .help => ⟨0, .ofString usageText, [], disk⟩
  | .version => ⟨0, .ofString versionText, [], disk⟩

/-- Runs the program. `filter` is what the environment says of the log. -/
def run (args : List String) (filter : Option String) (disk : Disk) : Report :=
  match Invocation.read args with
  | .error stop => ⟨.ofRequests 0 filter, stop.outcome disk⟩
  | .ok invocation =>
    ⟨.ofRequests invocation.verbosity filter,
      invocation.job.run (if invocation.plain then .plain else .colored) disk⟩

end Stencil.Command
