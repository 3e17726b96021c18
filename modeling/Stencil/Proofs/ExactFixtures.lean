import Stencil.Fixture.Run
import Stencil.Proofs.WellFormedText

/-!
# Exact fixtures

The output of a fixture is compared as a text, also where it has to be exact. So an exact fixture
passes if its rendering gives octets that are read as the expected text (`exact_passes_iff`). These
are the text's own octets unless the text has a replacement character and the output has ill-formed
octets in its place (`exact_passes_with_other_octets`).
-/

namespace Stencil

namespace Expectation

variable {x : Expectation} {s : String}

theorem judge_ok (hexact : x.exact = true) (houtput : x.output = some s) (herror : x.error = none)
    (hparse : x.parseError = false) (out : Chain) :
    x.judge (.ok out) = none ↔ Utf8.lossy out.bytes = s := by
  simp [judge, judgeOutput, hexact, houtput, herror, hparse]

theorem judge_error (herror : x.error = none) (hparse : x.parseError = false) (e : RenderFault) :
    x.judge (.error e) ≠ none := by
  simp [judge, herror, hparse]

end Expectation

namespace Fixture

/-- The fixture's data is a binding set, and its template gives this output with it. -/
def Gives (fixture : Fixture) (files : Files) (path : Path) (out : Chain) : Prop :=
  ∃ b, Bindings.ofTable fixture.expectation.data = .ok b ∧
    ((renderer path).render files (.ofString fixture.source) b).result = .ok out

variable {files : Files} {path : Path} {text s : String} {fixture : Fixture}

theorem run_eq (hread : files.readText path = .ok text) (hfixture : ofText text = .ok fixture) :
    (run files path).failure =
      match Bindings.ofTable fixture.expectation.data with
      | .error why => some (.data why)
      | .ok b => fixture.expectation.judge
          ((renderer path).render files (.ofString fixture.source) b).result := by
  unfold run
  rw [hread]
  simp only [hfixture]
  rcases Bindings.ofTable fixture.expectation.data with why | b <;> rfl

/-- A fixture that has to give some output exactly, and no fault, passes if and only if it gives
octets that are read as the expected text. They are that text's own if they are well formed at all,
and always if the text has no replacement character; any other text is read from other octets as
well, and the fixture takes them for it. -/
theorem exact_passes_iff (hread : files.readText path = .ok text)
    (hfixture : ofText text = .ok fixture) (hexact : fixture.expectation.exact = true)
    (houtput : fixture.expectation.output = some s) (herror : fixture.expectation.error = none)
    (hparse : fixture.expectation.parseError = false) :
    ((run files path).passed ↔ ∃ out, fixture.Gives files path out ∧ Utf8.lossy out.bytes = s) ∧
    (∀ out, fixture.Gives files path out → (run files path).passed →
      (out.bytes = .ofString s ↔ ∃ t, out.bytes = .ofString t)) ∧
    (Utf8.replacement ∉ s.toList → ((run files path).passed ↔
      ∃ out, fixture.Gives files path out ∧ out.bytes = .ofString s)) ∧
    ((∀ out, fixture.expectation.judge (.ok out) = none → out.bytes = .ofString s) ↔
      Utf8.replacement ∉ s.toList) := by
  have hjudge := Expectation.judge_ok hexact houtput herror hparse
  have hpassed : (run files path).passed ↔
      ∃ out, fixture.Gives files path out ∧ Utf8.lossy out.bytes = s := by
    rw [Verdict.passed, Option.isNone_iff_eq_none, run_eq hread hfixture]
    unfold Gives
    rcases Bindings.ofTable fixture.expectation.data with why | b
    · simp
    · rcases hr : ((renderer path).render files (.ofString fixture.source) b).result with e | out
      · simp [Expectation.judge_error herror hparse, hr]
      · simp [hjudge, hr]
  refine ⟨hpassed, fun out hgives hpass => ?_, fun hs => ?_, ?_⟩
  · obtain ⟨out', hgives', hlossy⟩ := hpassed.1 hpass
    obtain rfl : out' = out := by
      obtain ⟨b, hb, hout⟩ := hgives
      obtain ⟨b', hb', hout'⟩ := hgives'
      obtain rfl := Except.ok.inj (hb.symm.trans hb')
      exact Except.ok.inj (hout'.symm.trans hout)
    refine ⟨fun h => ⟨s, h⟩, ?_⟩
    rintro ⟨t, ht⟩
    rw [ht, Utf8.lossy_ofString] at hlossy
    rw [ht, hlossy]
  · rw [hpassed]
    refine exists_congr fun out => and_congr_right fun _ => ?_
    exact ⟨Utf8.eq_ofString_of_lossy hs, fun h => by rw [h, Utf8.lossy_ofString]⟩
  · rw [← Utf8.reads_alone_iff]
    simp only [hjudge]
    refine ⟨fun h bs hbs => ?_, fun h out => h out.bytes⟩
    have hout := h (.ofBytes bs)
    rw [Chain.bytes_ofBytes] at hout
    exact hout hbs

/-- A fixture that expects a replacement character between brackets, and the file that it includes
there, of a single octet that begins no character. -/
def illFormedInclude : Files := fun path =>
  if path = .ofString "t/a.test.tmpl" then .ok (.ofString
    "---\nexpect_output = \"[\\uFFFD]\"\nexact = true\n---\n[<TMPL_INCLUDE name=\"a\">]")
  else if path = .ofString "t/a" then .ok [0xFF] else .error .notFound

theorem illFormedInclude_gives : ∃ text fixture,
    illFormedInclude.readText (.ofString "t/a.test.tmpl") = .ok text ∧ ofText text = .ok fixture ∧
      fixture.expectation.exact = true ∧ fixture.expectation.output = some "[\uFFFD]" ∧
      fixture.expectation.error = none ∧ fixture.expectation.parseError = false ∧
      ∀ out, fixture.Gives illFormedInclude (.ofString "t/a.test.tmpl") out →
        out.bytes = [0x5B, 0xFF, 0x5D] := by
  let path : Path := .ofString "t/a.test.tmpl"
  have hparts : ((illFormedInclude.readText path).toOption.bind fun text =>
      (ofText text).toOption.map fun fixture =>
        let x := fixture.expectation
        (x.exact, x.output, x.error, x.parseError)) =
      some (true, some "[\uFFFD]", none, false) := by
    decide +kernel
  have hbytes : ((illFormedInclude.readText path).toOption.bind fun text =>
      (ofText text).toOption.bind fun fixture =>
        (Bindings.ofTable fixture.expectation.data).toOption.bind fun b =>
          ((renderer path).render illFormedInclude (.ofString fixture.source) b).result.toOption.map
            (·.bytes)) = some [0x5B, 0xFF, 0x5D] := by
    decide +kernel
  rcases hread : illFormedInclude.readText path with e | text <;> rw [hread] at hparts hbytes
  · cases hparts
  rcases hfixture : ofText text with e | fixture <;>
    simp only [Except.toOption, Option.bind_some, hfixture] at hparts hbytes
  · cases hparts
  simp only [Option.map_some, Option.some.injEq, Prod.mk.injEq] at hparts
  obtain ⟨hexact, houtput, herror, hparse⟩ := hparts
  refine ⟨text, fixture, rfl, hfixture, hexact, houtput, herror, hparse, ?_⟩
  rintro out ⟨b, hb, hout⟩
  simpa [hb, path, hout] using hbytes

/-- The octet is read as the replacement character. -/
theorem exact_passes_iff_included :
    let path : Path := .ofString "t/a.test.tmpl"
    ∃ text fixture, illFormedInclude.readText path = .ok text ∧ ofText text = .ok fixture ∧
      fixture.expectation.exact = true ∧ fixture.expectation.output = some "[\uFFFD]" ∧
      fixture.expectation.error = none ∧ fixture.expectation.parseError = false ∧
      (run illFormedInclude path).passed ∧
      ∃ out, fixture.Gives illFormedInclude path out ∧ Utf8.lossy out.bytes = "[\uFFFD]" := by
  intro path
  obtain ⟨text, fixture, hread, hfixture, hexact, houtput, herror, hparse, -⟩ :=
    illFormedInclude_gives
  have hpassed : (run illFormedInclude path).passed := by decide +kernel
  have hiff := exact_passes_iff hread hfixture hexact houtput herror hparse
  exact ⟨text, fixture, hread, hfixture, hexact, houtput, herror, hparse, hpassed,
    hiff.1.1 hpassed⟩

/-- An exact fixture may pass with octets that are not those of the text that it expects. -/
theorem exact_passes_with_other_octets :
    ¬ ∀ (files : Files) (path : Path) (text s : String) (fixture : Fixture),
      files.readText path = .ok text → ofText text = .ok fixture →
      fixture.expectation.exact = true → fixture.expectation.output = some s →
      fixture.expectation.error = none → fixture.expectation.parseError = false →
      (run files path).passed → ∃ out, fixture.Gives files path out ∧ out.bytes = .ofString s := by
  intro h
  obtain ⟨text, fixture, hread, hfixture, hexact, houtput, herror, hparse, hbytes⟩ :=
    illFormedInclude_gives
  have hpassed : (run illFormedInclude (.ofString "t/a.test.tmpl")).passed := by decide +kernel
  obtain ⟨out, hgives, hout⟩ := h _ _ _ _ _ hread hfixture hexact houtput herror hparse hpassed
  rw [hbytes out hgives] at hout
  exact absurd hout (by decide)

end Fixture

end Stencil
