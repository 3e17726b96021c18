import Mathlib.Data.List.Flatten
import Stencil.Command
import Stencil.Proofs.SortedCatalogues

/-!
# Green runs

A run of the tests takes the selected fixtures in order and tells of each of them once, as it is
run; the failures among them are listed again, and the last line counts both kinds. The run is green
if and only if there are fixtures and all of them pass.
-/

namespace Stencil

theorem Fixture.path_run (files : Files) (p : Path) : (Fixture.run files p).path = p := by
  unfold Fixture.run
  split
  · rfl
  · split
    · rfl
    · simp only
      split <;> rfl

namespace Verdict

/-- What is shown of the reason why a fixture fails. -/
def reasonLines (v : Verdict) : List String :=
  v.failure.toList.flatMap fun e => (Text.lines e.message).map ("  " ++ ·)

theorem failureLines_of_failed {v : Verdict} (h : v.passed = false) :
    v.failureLines = "" :: ("  --- " ++ v.path.text ++ " ---") :: v.reasonLines := by
  unfold failureLines reasonLines
  rcases hfailure : v.failure with _ | e
  · simp [passed, hfailure] at h
  · simp

end Verdict

namespace Results

/-- The line that tells how many fixtures passed and how many failed. -/
def totals (paint : Paint) (passed failed : Nat) : String :=
  if failed = 0 then "test result: " ++ paint.good "ok" ++ s!". {passed} passed, 0 failed"
  else
    "test result: " ++ paint.bad "FAILED"
      ++ s!". {passed} passed, {failed} failed (of {passed + failed})"

theorem countLine_eq (paint : Paint) (r : Results) :
    r.countLine paint = totals paint r.passedCount r.failed.length := rfl

end Results

namespace Catalogue

variable (files : Files) (c : Catalogue)

/-- The fixtures that pass. -/
def passing : List Path := c.fixtures.filter fun p => (Fixture.run files p).passed

/-- The fixtures that fail. -/
def failing : List Path := c.fixtures.filter fun p => !(Fixture.run files p).passed

theorem verdicts_run : (c.run files).verdicts = c.fixtures.map (Fixture.run files) := by
  simp [Results.verdicts, run, fixtures, List.map_flatMap, List.flatMap_map]

theorem passedCount_run : (c.run files).passedCount = (c.passing files).length := by
  rw [Results.passedCount, verdicts_run, List.countP_map, List.countP_eq_length_filter, passing]
  rfl

theorem failed_run : (c.run files).failed = (c.failing files).map (Fixture.run files) := by
  rw [Results.failed, verdicts_run, List.filter_map, failing]
  rfl

theorem failed_run_eq_nil : (c.run files).failed = [] ↔ c.failing files = [] := by
  rw [failed_run, List.map_eq_nil_iff]

theorem passing_add_failing :
    (c.passing files).length + (c.failing files).length = c.fixtures.length := by
  rw [passing, failing]
  exact (List.length_eq_length_filter_add _).symm

theorem green_run : (c.run files).green ↔ ∀ p ∈ c.fixtures, (Fixture.run files p).passed := by
  simp [Results.green, failed_run, failing, List.filter_eq_nil_iff]

/-- What is shown while the fixtures are run: for each category its title, unless there is but a
single file, and for each fixture its log and whether it passed. -/
def progress (paint : Paint) (single : Bool) : List Notice :=
  c.flatMap fun (name, paths) =>
    (if single then [] else [.line "", .line (paint.heading (title name))]) ++
      paths.flatMap fun p =>
        let verdict := Fixture.run files p
        verdict.events.map .log ++
          [.line ("  " ++ (if verdict.passed then paint.good "PASS" else paint.bad "FAIL")
            ++ "  " ++ verdict.label)]

/-- What is shown of the failures in the end: for each of them its path and the reason. -/
def failures : List String :=
  if c.failing files = [] then []
  else
    ["", "failures:"] ++ (c.failing files).flatMap fun p =>
      "" :: ("  --- " ++ p.text ++ " ---") :: (Fixture.run files p).reasonLines

theorem failureLines_run : (c.run files).failed.flatMap (·.failureLines) =
    (c.failing files).flatMap fun p =>
      "" :: ("  --- " ++ p.text ++ " ---") :: (Fixture.run files p).reasonLines := by
  rw [failed_run, List.flatMap_map]
  refine List.flatMap_congr fun p hp => ?_
  have hfailed : (Fixture.run files p).passed = false := by
    simpa [failing] using (List.mem_filter.1 hp).2
  rw [Verdict.failureLines_of_failed hfailed, Fixture.path_run]

theorem report_run (paint : Paint) (single : Bool) : (c.run files).report paint single =
    c.progress files paint single ++ (c.failures files).map .line ++
      [.line "",
        .line (Results.totals paint (c.passing files).length (c.failing files).length)] := by
  have hprogress : ∀ f : String × List Verdict → List Notice,
      (∀ name verdicts, f (name, verdicts) = Results.categoryNotices paint single name verdicts) →
        (c.run files).flatMap f = c.progress files paint single := by
    intro f hf
    simp only [run, progress, List.flatMap_map, hf, Results.categoryNotices]
    rfl
  have hfailures : (if (c.run files).failed.isEmpty then []
      else (["", "failures:"] ++ (c.run files).failed.flatMap (·.failureLines)).map Notice.line) =
        (c.failures files).map .line := by
    simp only [failureLines_run, failures, List.isEmpty_iff, failed_run_eq_nil]
    split_ifs <;> rfl
  rw [Results.report, hprogress _ fun _ _ => rfl, hfailures, Results.countLine_eq,
    passedCount_run, failed_run, List.length_map]

end Catalogue

namespace Command

namespace TestOptions

variable (o : TestOptions) (disk : Disk)

/-- The fixtures that are run: the single file, or those that are discovered in the folder and whose
categories are requested. -/
def selection : Catalogue :=
  if disk.isFile o.path then [("", [o.path])]
  else (Catalogue.discover disk o.path).select o.categories

/-- What is shown of requests that no category meets. -/
def warnings : List String :=
  if disk.isFile o.path then []
  else if o.categories.isEmpty then [] else (Catalogue.discover disk o.path).warnings o.categories

theorem sorted_selection : (o.selection disk).Sorted := by
  unfold selection
  split_ifs
  · exact .cons (by simp) (by simp) (List.pairwise_singleton _ _) Catalogue.sorted_nil
  · exact (Catalogue.sorted_discover disk o.path).sublist (Catalogue.select_sublist _ _)

theorem nodup_selection (h : disk.root.Proper) : (o.selection disk).fixtures.Nodup := by
  unfold selection
  split_ifs
  · exact List.nodup_singleton _
  · exact (Catalogue.nodup_discover h o.path).sublist
      ((Catalogue.select_sublist _ _).flatMap _)

theorem runFixtures_of_nil (paint : Paint) (h : o.selection disk = []) :
    ∃ notices, o.runFixtures paint disk = .failure disk notices := by
  unfold selection at h
  unfold runFixtures
  by_cases hfile : disk.isFile o.path
  · rw [if_pos hfile] at h
    cases h
  · rw [if_neg hfile] at h ⊢
    rcases hdiscover : Catalogue.discover disk o.path with _ | ⟨e, rest⟩
    · exact ⟨_, rfl⟩
    · rw [hdiscover] at h
      simp only [h]
      exact ⟨_, rfl⟩

theorem runFixtures_of_ne_nil (paint : Paint) (h : o.selection disk ≠ []) :
    o.runFixtures paint disk = .after ((o.warnings disk).map .line)
      (results paint (disk.isFile o.path) disk (o.selection disk)) := by
  unfold selection at h ⊢
  unfold runFixtures warnings
  by_cases hfile : disk.isFile o.path
  · simp only [hfile, if_true]
    rfl
  · simp only [hfile, if_false, Bool.false_eq_true] at h ⊢
    rcases hdiscover : Catalogue.discover disk o.path with _ | ⟨e, rest⟩
    · simp [hdiscover, Catalogue.select] at h
    · rw [hdiscover] at h
      rcases hselect : Catalogue.select o.categories (e :: rest) with _ | ⟨f, selected⟩
      · exact absurd hselect h
      · simp only [hselect]

end TestOptions

/-- A run of the tests takes the selected fixtures in the order of their categories and paths, each
once. Its exit code is zero if and only if there are any and all of them pass. What is shown tells
of each of them as it is run, of all that fail again in the end, and how many pass and fail. -/
theorem tests_green_iff {args : List String} {filter : Option String} {disk : Disk}
    {invocation : Invocation} {o : TestOptions} (hread : Invocation.read args = .ok invocation)
    (hjob : invocation.job = .test o) (hlist : o.listCategories = false) :
    let paint : Paint := if invocation.plain then .plain else .colored
    let outcome := (run args filter disk).outcome
    let selection := o.selection disk
    let passing := selection.passing disk.files
    let failing := selection.failing disk.files
    selection.Sorted ∧ (disk.root.Proper → selection.fixtures.Nodup) ∧
      outcome.code = (if selection.fixtures ≠ [] ∧
        ∀ p ∈ selection.fixtures, (Fixture.run disk.files p).passed then 0 else 1) ∧
      passing.length + failing.length = selection.fixtures.length ∧
      (selection.fixtures ≠ [] → outcome.notices =
        (o.warnings disk).map .line ++
          selection.progress disk.files paint (disk.isFile o.path) ++
          (selection.failures disk.files).map .line ++
          [.line "", .line (Results.totals paint passing.length failing.length)]) := by
  intro paint outcome selection passing failing
  have houtcome : outcome = o.runFixtures paint disk := by
    simp only [outcome, run, hread, hjob, Job.run, TestOptions.run, hlist]
    rfl
  have hsorted : selection.Sorted := o.sorted_selection disk
  refine ⟨hsorted, o.nodup_selection disk, ?_, Catalogue.passing_add_failing .., fun hne => ?_⟩
  · by_cases hnil : selection = []
    · obtain ⟨notices, hrun⟩ := o.runFixtures_of_nil disk paint hnil
      rw [houtcome, hrun, if_neg fun h => h.1 (hsorted.fixtures_eq_nil_iff.2 hnil)]
      rfl
    · -- The results alone do not tell that there are any: categories are never empty.
      have hne : selection.fixtures ≠ [] := fun h => hnil (hsorted.fixtures_eq_nil_iff.1 h)
      rw [houtcome, o.runFixtures_of_ne_nil disk paint hnil]
      exact if_congr ((Catalogue.green_run ..).trans (and_iff_right hne).symm) rfl rfl
  · have hsome : selection ≠ [] := fun h => hne (hsorted.fixtures_eq_nil_iff.2 h)
    rw [houtcome, o.runFixtures_of_ne_nil disk paint hsome]
    simp only [Outcome.after, TestOptions.results, Catalogue.report_run, List.append_assoc]
    rfl

/-- A folder with a fixture that fails and, in a category of its own, one that passes. -/
theorem tests_green_iff_mixed :
    let disk : Disk := ⟨.folder [(.ofString "t", .folder [
      (.ofString "b.test.tmpl", .file (.ofString "---\nexpect_output = \"x\"\n---\ny")),
      (.ofString "a", .folder [
        (.ofString "c.test.tmpl", .file (.ofString "---\nexpect_output = \"x\"\n---\nx"))])])], []⟩
    let o : TestOptions := ⟨.ofString "t", [], false⟩
    let outcome := (run ["test", "t", "--no-color"] none disk).outcome
    (o.selection disk).fixtures.Nodup ∧ outcome.code = 1 ∧ outcome.notices.getLast? =
      some (.line "test result: FAILED. 1 passed, 1 failed (of 2)") := by
  intro disk o outcome
  have hread : Invocation.read ["test", "t", "--no-color"] = .ok ⟨true, 0, .test o⟩ := by
    decide +kernel
  have hproper : disk.root.Proper := by
    refine .folder (List.nodup_singleton _) (by decide) ?_
    simp only [List.forall_mem_singleton]
    refine .folder (show List.Nodup _ by decide) (by decide) ?_
    simp only [List.forall_mem_cons, List.not_mem_nil, false_imp_iff, implies_true, and_true]
    refine ⟨.file _, .folder (List.nodup_singleton _) (by decide) ?_⟩
    simp only [List.forall_mem_singleton]
    exact .file _
  obtain ⟨-, hnodup, hcode, -, hnotices⟩ := @tests_green_iff _ none disk _ _ hread rfl rfl
  have hfixtures : (o.selection disk).fixtures =
      [.ofString "t/b.test.tmpl", .ofString "t/a/c.test.tmpl"] := by
    decide +kernel
  have hpassing : (o.selection disk).passing disk.files = [.ofString "t/a/c.test.tmpl"] := by
    decide +kernel
  have hfailing : (o.selection disk).failing disk.files = [.ofString "t/b.test.tmpl"] := by
    decide +kernel
  refine ⟨hnodup hproper, ?_, ?_⟩
  · rw [show outcome.code = _ from hcode]
    exact if_neg (by decide +kernel)
  · rw [show outcome.notices = _ from hnotices (by simp [hfixtures]), hpassing, hfailing,
      List.getLast?_append]
    rfl

end Command

end Stencil
