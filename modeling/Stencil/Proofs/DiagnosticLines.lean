import Mathlib.Data.List.Forall2
import Stencil.Proofs.AllOrNothing
import Stencil.Proofs.DecodedLines
import Stencil.Proofs.FaultPlaces

/-!
# The lines that diagnostics name

A fault that is found in a file is reported with that file and a line of it. The line is that of the
fault's offset in the decoded text, so it is never too late, and it is right if no newline before
the fault moves beyond the offset by being decoded (`diagnostics_point_back`). In a file that is not
well formed it may be too early (`line_is_too_early`).
-/

namespace Stencil

/-- The diagnostic is about the file, and the offset decides on its line as far as the decoded text
lets it. -/
structure Diagnostic.PointsAt (d : Diagnostic) (path : Path) (source : Bytes) (start : Nat) :
    Prop where
  file_eq : d.file = path.text
  line_le : d.place.line ≤ source.line start
  line_eq_iff : d.place.line = source.line start ↔
    ∀ a r, source = a ++ 10 :: r → a.length < start → Utf8.decodedSize (a ++ [10]) ≤ start
  line_eq_of_text : ∀ text, source = .ofString text → d.place.line = source.line start

theorem Diagnostic.pointsAt_ofFile (message : String) (path : Path) {source : Bytes} {start : Nat}
    (notes : List String) (h : start ≤ source.length) :
    (ofFile message path source start notes).PointsAt path source start where
  file_eq := rfl
  line_le := Place.line_ofOffset_le h
  line_eq_iff := Place.line_ofOffset_eq_iff h
  line_eq_of_text := by
    rintro text rfl
    exact Place.line_ofOffset_ofString text h

/-- Where the tags begin that the fault is reported at. -/
def RenderFault.starts : RenderFault → List Nat
  | .blocks faults _ => faults.map (·.span.start)
  | e => e.span?.toList.map (·.start)

variable {files : Files} {path : Path} {source : Bytes} {e : RenderFault} {p : Page}

theorem RenderFault.report_of_span {span : Span} (hspan : e.span? = some span)
    (hblocks : ∀ faults file, e ≠ .blocks faults file) (hpath : e.path? = some path)
    (hfile : files path = .ok source) (hstop : span.stop ≤ source.length) :
    e.report files = (Diagnostic.ofFile e.message path source span.start []).lines := by
  cases e with
  | blocks faults file => exact absurd rfl (hblocks faults file)
  | unreadable file why => cases hspan
  | strayElse s file | strayClose kind s file | tooDeep limit s file =>
    obtain rfl : s = span := Option.some.inj hspan
    obtain rfl : file = some path := hpath
    simp only [report, path?, hfile, span?, if_pos hstop]

/-- What is wrong in a file is reported by diagnostics, each at one of the places of the fault. -/
theorem RenderFault.IsIn.report (h : e.IsIn p) (hpath : p.path = some path)
    (hfile : files path = .ok p.source) : ∃ ds : List Diagnostic,
      e.report files = ds.flatMap Diagnostic.lines ∧
      List.Forall₂ (fun d start => d.PointsAt path p.source start) ds e.starts := by
  have hplace := h.path.trans hpath
  have hspans := h.span_mem
  cases e with
  | blocks faults file =>
    obtain rfl : file = some path := hplace
    refine ⟨faults.map (Diagnostic.ofBlockFault path p.source), ?_, ?_⟩
    · simp only [RenderFault.report, RenderFault.path?, hfile, List.flatMap_map]
    · rw [starts, List.forall₂_map_left_iff, List.forall₂_map_right_iff, List.forall₂_same]
      intro f hf
      have hspan := hspans f.span (List.mem_flatMap.2 ⟨f, hf, List.mem_cons_self⟩)
      exact Diagnostic.pointsAt_ofFile _ _ _ (by omega)
  | unreadable file why => exact h.points.elim
  | strayElse span file | strayClose kind span file | tooDeep limit span file =>
    have hspan := hspans span List.mem_cons_self
    have hreport := report_of_span rfl (by simp) hplace hfile hspan.2.2
    have hstart : span.start ≤ p.source.length := by omega
    exact ⟨[_], hreport.trans (List.flatMap_singleton _ _).symm,
      .cons (Diagnostic.pointsAt_ofFile _ path [] hstart) .nil⟩

theorem Renderer.Reads.files_eq {r : Renderer} {events : List Event}
    (h : r.Reads files events ⟨source, some path⟩ p) (hfile : files path = .ok source) :
    ∃ file, p.path = some file ∧ files file = .ok p.source := by
  cases h with
  | top => exact ⟨path, rfl, hfile⟩
  | included hp ht hk hf he => exact ⟨_, rfl, hf⟩

/-- A fault that stops the rendering of a file is in a page that was read from a file, unless the
file itself cannot be read. -/
theorem Renderer.isIn_of_renderFile {r : Renderer} {b : Bindings}
    (h : (r.renderFile files path b).result = .error e)
    (hread : ∀ file why, e ≠ .unreadable file why) :
    ∃ p file, e.IsIn p ∧ p.path = some file ∧ files file = .ok p.source := by
  unfold renderFile at h
  rcases hfile : files path with why | source <;> rw [hfile] at h
  · exact absurd (Except.error.inj h).symm (hread path why)
  · obtain ⟨p, hp, hin⟩ := r.placed_page files _ b e h
    obtain ⟨file, hpath, hf⟩ := hp.files_eq hfile
    exact ⟨p, file, hin, hpath, hf⟩

namespace Command

/-- A fault in a file stops the job: in the template that is checked, or in one of those that are
rendered. -/
def Job.Stops (job : Job) (disk : Disk) (e : RenderFault) : Prop :=
  match job with
  | .render o => ∃ b, Bindings.load disk.files o.data o.assignments = .ok b ∧
      (o.rendering disk.files b).result = .error e ∧ ∀ file why, e ≠ .unreadable file why
  | .check o => ∃ source faults, disk.files o.template = .ok source ∧
      Template.parse source = .error faults ∧ e = .blocks faults (some o.template)
  | .test _ => False

theorem RenderOptions.isIn_of_rendering {o : RenderOptions} {b : Bindings}
    (h : (o.rendering files b).result = .error e) (hread : ∀ file why, e ≠ .unreadable file why) :
    ∃ p file, e.IsIn p ∧ p.path = some file ∧ files file = .ok p.source := by
  rw [rendering_result, bindContent_result] at h
  rcases hcontent : o.content with _ | content <;> rw [hcontent] at h
  · exact Renderer.isIn_of_renderFile h hread
  · simp only at h
    rcases hout : ((o.renderer content).renderFile files content b).result with e' | out <;>
      rw [hout] at h
    · obtain rfl := Except.error.inj h
      exact Renderer.isIn_of_renderFile hout hread
    · exact Renderer.isIn_of_renderFile h hread

theorem Job.Stops.isIn {job : Job} {disk : Disk} (h : job.Stops disk e) :
    ∃ p file, e.IsIn p ∧ p.path = some file ∧ disk.files file = .ok p.source := by
  cases job with
  | render o =>
    obtain ⟨b, -, hresult, hread⟩ := h
    exact RenderOptions.isIn_of_rendering hresult hread
  | check o =>
    obtain ⟨source, faults, hfile, hparse, rfl⟩ := h
    let p : Page := ⟨source, some o.template⟩
    have hspec := Page.parse_spec p.inside_whole
    have hresult : (p.parse ⟨0, p.source.length⟩).result = .error (.blocks faults p.path) :=
      congrArg (Except.mapError (RenderFault.blocks · p.path)) hparse
    rw [hresult] at hspec
    exact ⟨p, o.template, hspec, rfl, hfile⟩
  | test o => exact h.elim

theorem Job.Stops.notices {job : Job} {disk : Disk} (h : job.Stops disk e) (paint : Paint) :
    ∃ events : List Event, (job.run paint disk).notices =
      events.map .log ++ (e.report disk.files).map .line := by
  cases job with
  | render o =>
    obtain ⟨b, hload, hresult, -⟩ := h
    refine ⟨(o.rendering disk.files b).events, ?_⟩
    simp only [run, RenderOptions.run, hload, hresult]
    rfl
  | check o =>
    obtain ⟨source, faults, hfile, hparse, rfl⟩ := h
    refine ⟨[], ?_⟩
    simp only [run, CheckOptions.run, hfile, hparse, RenderFault.report, RenderFault.path?]
    rfl
  | test o => exact h.elim

/-- Every fault in a file is reported by diagnostics that name the file, each with the line of one
of the tags at fault or an earlier line. It is the line of the tag if and only if the text of the
file up to every newline before the tag is no longer than what is before the tag; so it is where the
file is well formed. -/
theorem diagnostics_point_back {args : List String} (filter : Option String) {disk : Disk}
    {invocation : Invocation} (hread : Invocation.read args = .ok invocation)
    (hstops : invocation.job.Stops disk e) :
    ∃ (path : Path) (source : Bytes) (events : List Event) (ds : List Diagnostic),
      e.path? = some path ∧ disk.files path = .ok source ∧
      (run args filter disk).outcome.notices =
        events.map .log ++ (ds.flatMap Diagnostic.lines).map .line ∧
      List.Forall₂ (fun d start => d.PointsAt path source start) ds e.starts := by
  obtain ⟨p, file, hin, hpath, hfile⟩ := hstops.isIn
  obtain ⟨ds, hreport, hds⟩ := hin.report hpath hfile
  obtain ⟨events, hnotices⟩ := hstops.notices (if invocation.plain then .plain else .colored)
  refine ⟨file, p.source, events, ds, hin.path.trans hpath, hfile, ?_, hds⟩
  rw [← hreport, ← hnotices, run, hread]

/-- A fault behind the first line of an included file that is well formed. -/
theorem diagnostics_point_back_included :
    let part : Bytes := .ofString "é\n<TMPL_ELSE>"
    let disk : Disk := ⟨.folder [
      (.ofString "page", .file (.ofString "<TMPL_INCLUDE name=\"part\">")),
      (.ofString "part", .file part)], []⟩
    ∃ (events : List Event) (d : Diagnostic),
      (run ["page"] none disk).outcome.notices = events.map .log ++ d.lines.map .line ∧
        d.file = "part" ∧ d.place.line = 2 := by
  intro part disk
  let o : RenderOptions :=
    { template := .ofString "page", data := [], assignments := [], content := none
      contentName := "CONTENT", includeDir := none, maxDepth := 64, output := none }
  let e : RenderFault := .strayElse ⟨3, 14⟩ (some (.ofString "part"))
  have hread : Invocation.read ["page"] = .ok ⟨false, 0, .render o⟩ := by decide +kernel
  have hresult : (o.rendering disk.files ∅).result = .error e := by decide +kernel
  have hstops : (Job.render o).Stops disk e := ⟨∅, rfl, hresult, nofun⟩
  obtain ⟨path, source, events, ds, hpath, hfile, hnotices, hds⟩ :=
    diagnostics_point_back none hread hstops
  obtain rfl : .ofString "part" = path := Option.some.inj hpath
  have hpart : disk.files (.ofString "part") = .ok part := by decide +kernel
  obtain rfl : part = source := Except.ok.inj (hpart.symm.trans hfile)
  rcases hds with _ | ⟨hd, _ | _⟩
  have hname : (Path.ofString "part").text = "part" := by decide +kernel
  have hline : part.line 3 = 2 := by decide +kernel
  exact ⟨events, _, by simpa using hnotices, hd.file_eq.trans hname,
    (hd.line_eq_of_text _ rfl).trans hline⟩

/-- In a file that is not well formed the line can be too early: the octets of the first line are
replaced, so that the newline comes behind the offset of the tag in the second line. -/
theorem line_is_too_early :
    let source : Bytes := List.replicate 29 255 ++ Bytes.ofString "\n<TMPL_IF name=\"a\">"
    let disk : Disk := ⟨.folder [(.ofString "page", .file source)], []⟩
    Template.parse source = .error [.unclosed .ifBlock ⟨30, 48⟩] ∧ source.line 30 = 2 ∧
      (run ["check", "page"] none disk).outcome.notices =
        [.line "error: unable to find closing tag for TMPL_IF", .line "┌─ page:1:11",
          .line "= expected a matching </TMPL_IF>", .line ""] := by
  decide +kernel

end Command

end Stencil
