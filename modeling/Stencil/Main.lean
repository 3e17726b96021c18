import Stencil.Command

/-!
# The program

A run is a function of the disk, so the part of the disk that it may look at is read first: the
paths on the command line, and from file to file all that templates include. What is read goes into
a tree, in which the run then takes place.
-/

namespace Stencil

/-- The files that a template may include. -/
def Renderer.mentions (r : Renderer) (source : Bytes) : List Path :=
  ((Tag.scan source ⟨0, source.length⟩).filter fun t =>
    t.kind == .incl || t.kind == .includes).map fun t => r.resolve t.nameOrEmpty

namespace Command

/-- The paths on the command line, each with the renderer of the template that it may lead to. -/
def Job.paths : Job → List (Path × Option Renderer)
  | .render o =>
    o.data.map (·, none) ++ o.content.toList.map (fun p => (p, some (o.renderer p)))
      ++ [(o.template, some (o.renderer o.template))] ++ o.output.toList.map (·, none)
  | .check o => [(o.template, none)]
  | .test _ => []

/-- Reads what stands at a path into the tree: the folders on the way and the file at the end. -/
def readPath (disk : Disk) (p : Path) : IO Disk := do
  let here ← IO.currentDir
  let mut root := disk.root
  let mut place := disk.start p
  for piece in Path.split p.octets do
    if piece = [46, 46] then place := place.dropLast
    else if !Path.isBlank piece then place := place ++ [piece]
    let file := here / ("/" ++ Utf8.lossy (List.intercalate [47] place))
    if (root.at? place).isNone then
      if ← file.isDir then root := .put (.folder []) place root
      else if ← file.pathExists then
        let content ← IO.FS.readBinFile file
        root := .put (.file content.data.toList) place root
  return { disk with root }

/-- Reads paths, and all that the templates among them include. -/
def readAll (disk : Disk) (paths : List (Path × Option Renderer)) : IO Disk := do
  let mut disk := disk
  let mut waiting := paths
  let mut known : List (Path × Option Path) := []
  while !waiting.isEmpty do
    let (p, r) := waiting.headD (.ofString "", none)
    waiting := waiting.drop 1
    let entry := (p, r.map (·.baseDir))
    if !known.contains entry then
      known := entry :: known
      disk ← readPath disk p
      match r, disk.files p with
      | some r, .ok source => waiting := waiting ++ (r.mentions source).map (·, some r)
      | _, _ => pure ()
  return disk

/-- Reads a folder and the folders inside it: the tree, and the paths of the files. -/
def readFolder (disk : Disk) (path : Path) : IO (Disk × List Path) := do
  let here ← IO.currentDir
  let mut disk := disk
  let mut waiting := [path]
  let mut files : List Path := []
  while !waiting.isEmpty do
    let p := waiting.headD path
    waiting := waiting.drop 1
    disk ← readPath disk p
    let folder := here / p.text
    if ← folder.isDir then
      for entry in ← folder.readDir do
        let inside := p.join (.ofString entry.fileName)
        if ← entry.path.isDir then waiting := waiting ++ [inside]
        else files := files ++ [inside]
    else files := files ++ [p]
  return (disk, files)

/-- Reads what a job may look at. -/
def Job.readDisk (job : Job) (disk : Disk) : IO Disk :=
  match job with
  | .test o => do
    let (disk, files) ← readFolder disk o.path
    let mut disk := disk
    for p in files do
      disk ← readPath disk p
      match disk.files.readText p with
      | .ok text =>
        match Fixture.ofText text with
        | .ok fixture =>
          let r := Fixture.renderer p
          disk ← readAll disk ((r.mentions (.ofString fixture.source)).map (·, some r))
        | .error _ => pure ()
      | .error _ => pure ()
    return disk
  | job => readAll disk job.paths

/-- Writes the file that a job has put onto the disk. -/
def Job.writeBack (job : Job) (o : Outcome) : IO Unit :=
  match job with
  | .render { output := some p, .. } =>
    match o.code, o.disk.files p with
    | 0, .ok content => do
      IO.FS.writeBinFile ((← IO.currentDir) / p.text) ⟨content.toArray⟩
    | _, _ => pure ()
  | _ => pure ()

end Command

end Stencil

open Stencil Stencil.Command in
/-- Runs the program on the arguments, the environment and the disk. -/
def main (args : List String) : IO UInt32 := do
  let home := (Path.split (.ofString (← IO.currentDir).toString)).filter (· ≠ [])
  let start : Disk := ⟨.put (.folder []) home (.folder []), home⟩
  let filter ← IO.getEnv "RUST_LOG"
  let report ←
    match Invocation.read args with
    | .ok invocation => do
      let report := run args filter (← invocation.job.readDisk start)
      invocation.job.writeBack report.outcome
      pure report
    | .error _ => pure (run args filter start)
  let out ← IO.getStdout
  out.write ⟨report.outcome.output.toArray⟩
  for notice in report.outcome.notices do
    match notice.text? report.filter with
    | some text => IO.eprintln text
    | none => pure ()
  return report.outcome.code.toUInt32
