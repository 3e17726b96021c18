import Stencil.Fixture.Catalogue
import Stencil.Notice

/-!
# Running all fixtures

The fixtures of a catalogue are run category by category. Each one is reported as passed or failed,
the failures are listed again with their reasons, and the last line counts them.
-/

namespace Stencil

/-- How a report is painted. -/
inductive Paint where
  | plain
  | colored
  deriving DecidableEq, Repr

namespace Paint

/-- A text in a color of the terminal. -/
def apply (p : Paint) (color : String) (s : String) : String :=
  match p with
  | .plain => s
  | .colored => "\x1b[" ++ color ++ "m" ++ s ++ "\x1b[0m"

/-- A heading. -/
def heading (p : Paint) (s : String) : String := p.apply "1" s

/-- Good news. -/
def good (p : Paint) (s : String) : String := p.apply "32" s

/-- Bad news. -/
def bad (p : Paint) (s : String) : String := p.apply "31" s

end Paint

/-- What becomes of each category's fixtures. -/
abbrev Results := List (String × List Verdict)

/-- Runs the fixtures of a catalogue. -/
def Catalogue.run (files : Files) (c : Catalogue) : Results :=
  c.map fun (name, paths) => (name, paths.map (Fixture.run files))

namespace Results

/-- The verdicts, in the order in which the fixtures are run. -/
def verdicts (r : Results) : List Verdict := r.flatMap (·.2)

/-- The number of fixtures that passed. -/
def passedCount (r : Results) : Nat := r.verdicts.countP (·.passed)

/-- The fixtures that failed. -/
def failed (r : Results) : List Verdict := r.verdicts.filter (!·.passed)

/-- Whether all that was run passed. -/
def green (r : Results) : Bool := r.failed.isEmpty

end Results

namespace Verdict

/-- What is shown when a fixture has been run: its log, and whether it passed. -/
def notices (p : Paint) (v : Verdict) : List Notice :=
  v.events.map .log ++
    [.line ("  " ++ (if v.passed then p.good "PASS" else p.bad "FAIL") ++ "  " ++ v.label)]

/-- What is shown of a failure at the end. -/
def failureLines (v : Verdict) : List String :=
  match v.failure with
  | none => []
  | some e =>
    ["", "  --- " ++ v.path.text ++ " ---"] ++ (Text.lines e.message).map ("  " ++ ·)

end Verdict

namespace Results

/-- What is shown of a category. Where there is but a single file, it has no heading. -/
def categoryNotices (p : Paint) (single : Bool) (name : String) (verdicts : List Verdict) :
    List Notice :=
  (if single then [] else [.line "", .line (p.heading (Catalogue.title name))])
    ++ verdicts.flatMap (·.notices p)

/-- The line that counts. -/
def countLine (p : Paint) (r : Results) : String :=
  let passed := r.passedCount
  let failed := r.failed.length
  if failed = 0 then "test result: " ++ p.good "ok" ++ s!". {passed} passed, 0 failed"
  else
    "test result: " ++ p.bad "FAILED"
      ++ s!". {passed} passed, {failed} failed (of {passed + failed})"

/-- The report. -/
def report (p : Paint) (single : Bool) (r : Results) : List Notice :=
  r.flatMap (fun (name, verdicts) => categoryNotices p single name verdicts)
    ++ (if r.failed.isEmpty then []
      else (["", "failures:"] ++ r.failed.flatMap (·.failureLines)).map .line)
    ++ [.line "", .line (countLine p r)]

end Results

end Stencil
