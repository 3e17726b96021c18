import Mathlib.Data.List.Basic
import Stencil.Command
import Stencil.Proofs.WrittenFiles

/-!
# Rendering from the command line, all or nothing

The data is loaded, the content is rendered and bound, the template is rendered, and only then is
anything put out: a run that fails in any of these stages has no output and leaves the disk as it
is, and any other run puts out the whole text (`run_all_or_nothing`). All of it is read from the
disk as it was before the run, so that the output may go to a file that was read.
-/

namespace Stencil.Command

/-- The stage in which a run fails. -/
inductive Failure where
  | loading (e : DataFault)
  | content (e : RenderFault)
  | template (e : RenderFault)
  deriving DecidableEq

namespace RenderOptions

/-- What the stages give: the data is loaded, the rendered content is bound to its variable where
there is a content, and the template is rendered with what is bound then. Both are rendered with the
given limit, and what they include is looked up in the given directory, or else in the directory of
the file itself. -/
def stages (o : RenderOptions) (files : Files) : Except Failure Bytes := do
  let loaded ← (Bindings.load files o.data o.assignments).mapError .loading
  let b ←
    match o.content with
    | none => pure loaded
    | some content => do
      let dir := o.includeDir.getD (content.parent?.getD (.ofString "."))
      let r : Renderer := ⟨dir, o.maxDepth⟩
      let out ← (r.renderFile files content loaded).result.mapError .content
      pure (loaded.setOwned o.contentName out.bytes)
  let dir := o.includeDir.getD (o.template.parent?.getD (.ofString "."))
  let r : Renderer := ⟨dir, o.maxDepth⟩
  let out ← (r.renderFile files o.template b).result.mapError .template
  return out.bytes

variable {o : RenderOptions} {files : Files} {disk : Disk} {b : Bindings}

theorem renderer_eq (o : RenderOptions) (file : Path) : o.renderer file =
    ⟨o.includeDir.getD (file.parent?.getD (.ofString ".")), o.maxDepth⟩ := rfl

theorem bindContent_result (o : RenderOptions) (files : Files) (b : Bindings) :
    (o.bindContent files b).result =
      match o.content with
      | none => .ok b
      | some content =>
        ((o.renderer content).renderFile files content b).result.map
          fun out => b.setOwned o.contentName out.bytes := by
  unfold bindContent
  rcases o.content with _ | content
  · rfl
  · simp only [Rendering.result_bind]
    rcases ((o.renderer content).renderFile files content b).result with e | out <;> rfl

theorem rendering_result (o : RenderOptions) (files : Files) (b : Bindings) :
    (o.rendering files b).result = (o.bindContent files b).result >>= fun b =>
      ((o.renderer o.template).renderFile files o.template b).result :=
  Rendering.result_bind _ _

theorem rendering_of_stages (h : Bindings.load files o.data o.assignments = .ok b) :
    match o.stages files with
    | .error _ => ∃ e, (o.rendering files b).result = .error e
    | .ok text => ∃ out, (o.rendering files b).result = .ok out ∧ out.bytes = text := by
  rw [rendering_result, bindContent_result]
  unfold stages
  rw [h]
  simp only [← renderer_eq, bind, Except.bind, Except.mapError]
  rcases o.content with _ | content
  · simp only [pure, Except.pure]
    rcases ((o.renderer o.template).renderFile files o.template b).result with e | out
    · exact ⟨e, rfl⟩
    · exact ⟨out, rfl, rfl⟩
  · simp only [pure, Except.pure]
    rcases ((o.renderer content).renderFile files content b).result with e | out
    · exact ⟨e, rfl⟩
    · simp only [Except.map]
      rcases ((o.renderer o.template).renderFile files o.template _).result with e | out
      · exact ⟨e, rfl⟩
      · exact ⟨out, rfl, rfl⟩

theorem stages_of_load_error {e : DataFault}
    (h : Bindings.load files o.data o.assignments = .error e) :
    o.stages files = .error (.loading e) := by
  unfold stages
  rw [h]
  rfl

theorem run_of_stages_error {failure : Failure} (h : o.stages disk.files = .error failure) :
    ∃ notices, o.run disk = .failure disk notices := by
  unfold run
  rcases hload : Bindings.load disk.files o.data o.assignments with e | b
  · exact ⟨_, rfl⟩
  · have hr := rendering_of_stages hload
    rw [h] at hr
    obtain ⟨e, hr⟩ := hr
    simp only [hr]
    exact ⟨_, rfl⟩

theorem run_of_stages_ok {text : Bytes} (h : o.stages disk.files = .ok text) :
    ∃ out notices, out.bytes = text ∧ o.run disk = .after notices (o.deliver disk out) := by
  unfold run
  rcases hload : Bindings.load disk.files o.data o.assignments with e | b
  · rw [stages_of_load_error hload] at h
    cases h
  · have hr := rendering_of_stages hload
    rw [h] at hr
    obtain ⟨out, hr, htext⟩ := hr
    simp only [hr]
    exact ⟨out, _, htext, rfl⟩

end RenderOptions

/-- A run of the render command fails if and only if one of its stages does. Then it has no output
and leaves the disk as it was. Otherwise, where what the stages give can be written, it puts out
exactly that: to the output, or to the file that is given for it, whatever was there. No other file
is touched. -/
theorem run_all_or_nothing {args : List String} {filter : Option String} {disk : Disk}
    {invocation : Invocation} {o : RenderOptions} (hread : Invocation.read args = .ok invocation)
    (hjob : invocation.job = .render o)
    (hwrite : ∀ target text, o.output = some target → o.stages disk.files = .ok text →
      ∃ after, disk.write target text = .ok after) :
    let outcome := (run args filter disk).outcome
    (∀ failure, o.stages disk.files = .error failure →
      outcome.code = 1 ∧ outcome.output = [] ∧ outcome.disk = disk) ∧
    ∀ text, o.stages disk.files = .ok text → outcome.code = 0 ∧
      (o.output = none → outcome.output = text ∧ outcome.disk = disk) ∧
      ∀ target, o.output = some target →
        outcome.output = [] ∧ outcome.disk.files target = .ok text ∧
          ∀ p, outcome.disk.locate p ≠ outcome.disk.locate target →
            ∀ content, outcome.disk.files p = .ok content ↔ disk.files p = .ok content := by
  intro outcome
  have houtcome : outcome = o.run disk := by
    simp only [outcome, run, hread, hjob, Job.run]
  refine ⟨fun failure h => ?_, fun text h => ?_⟩
  · obtain ⟨notices, hrun⟩ := RenderOptions.run_of_stages_error h
    rw [houtcome, hrun]
    exact ⟨rfl, rfl, rfl⟩
  · obtain ⟨out, notices, rfl, hrun⟩ := RenderOptions.run_of_stages_ok h
    rw [houtcome, hrun, RenderOptions.deliver]
    rcases houtput : o.output with _ | target
    · exact ⟨rfl, fun _ => ⟨rfl, rfl⟩, nofun⟩
    · obtain ⟨after, hafter⟩ := hwrite target out.bytes houtput h
      simp only [hafter]
      refine ⟨rfl, nofun, ?_⟩
      rintro _ ⟨⟩
      exact ⟨rfl, Disk.files_of_write hafter, fun p hp => Disk.files_iff_of_write hafter hp⟩

/-- Three runs with a page and a part in a folder of its own. In the first run both include a file
that is only in the directory that is given, and the page is replaced by its own rendering. In the
second run each includes what is beside it. In the third run no level may be open. -/
theorem run_all_or_nothing_page :
    let disk : Disk := ⟨.folder [
      (.ofString "page", .file (.ofString "<TMPL_VAR name=\"CONTENT\"><TMPL_INCL name=\"end\">")),
      (.ofString "end", .file (.ofString ".")),
      (.ofString "texts", .folder [
        (.ofString "part", .file (.ofString "<TMPL_VAR name=\"x\"><TMPL_INCL name=\"end\">")),
        (.ofString "end", .file (.ofString ";"))]),
      (.ofString "inc", .folder [(.ofString "end", .file (.ofString "!"))])], []⟩
    let args := ["page", "--var", "x=1", "--content", "texts/part"]
    let given := (run (args ++ ["-I", "inc", "-o", "page"]) none disk).outcome
    let beside := (run args none disk).outcome
    let closed := (run (args ++ ["--max-depth", "0", "-o", "new"]) none disk).outcome
    (given.code = 0 ∧ given.output = [] ∧
      given.disk.files (.ofString "page") = .ok (.ofString "1!!")) ∧
    (beside.code = 0 ∧ beside.output = .ofString "1;." ∧ beside.disk = disk) ∧
    (closed.code = 1 ∧ closed.output = [] ∧ closed.disk = disk) := by
  intro disk args given beside closed
  let base : RenderOptions :=
    { template := .ofString "page", data := [], assignments := ["x=1"]
      content := some (.ofString "texts/part"), contentName := "CONTENT", includeDir := none
      maxDepth := 64, output := none }
  refine ⟨?_, ?_, ?_⟩
  · let o := { base with includeDir := some (.ofString "inc"), output := some (.ofString "page") }
    have hread : Invocation.read (args ++ ["-I", "inc", "-o", "page"]) =
        .ok ⟨false, 0, .render o⟩ := by decide +kernel
    have hstages : o.stages disk.files = .ok (.ofString "1!!") := by decide +kernel
    have hok : (disk.write (.ofString "page") (.ofString "1!!")).isOk := by decide +kernel
    have hwrite : ∀ target text, o.output = some target → o.stages disk.files = .ok text →
        ∃ after, disk.write target text = .ok after := by
      rintro _ text ⟨⟩ h
      obtain rfl := Except.ok.inj (hstages.symm.trans h)
      rcases hw : disk.write (.ofString "page") (.ofString "1!!") with e | after
      · rw [hw] at hok
        cases hok
      · exact ⟨after, rfl⟩
    obtain ⟨hcode, -, houtput⟩ := (run_all_or_nothing hread rfl hwrite).2 _ hstages
    obtain ⟨hempty, hfile, -⟩ := houtput (.ofString "page") rfl
    exact ⟨hcode, hempty, hfile⟩
  · have hread : Invocation.read args = .ok ⟨false, 0, .render base⟩ := by decide +kernel
    have hstages : base.stages disk.files = .ok (.ofString "1;.") := by decide +kernel
    obtain ⟨hcode, houtput, -⟩ := (run_all_or_nothing hread rfl nofun).2 _ hstages
    exact ⟨hcode, houtput rfl⟩
  · let o := { base with maxDepth := 0, output := some (.ofString "new") }
    have hread : Invocation.read (args ++ ["--max-depth", "0", "-o", "new"]) =
        .ok ⟨false, 0, .render o⟩ := by decide +kernel
    have hstages : o.stages disk.files =
        .error (.content (.tooDeep 0 ⟨19, 41⟩ (some (.ofString "texts/part")))) := by
      decide +kernel
    have hwrite : ∀ target text, o.output = some target → o.stages disk.files = .ok text →
        ∃ after, disk.write target text = .ok after := by
      intro _ _ _ htext
      cases hstages.symm.trans htext
    exact (run_all_or_nothing hread rfl hwrite).1 _ hstages

end Stencil.Command
