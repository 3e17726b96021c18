import Stencil.Fixture

/-!
# The parts of a fixture

A fixture that is written around a document and a template is divided into just these two again,
whatever line ends and byte order marks are used, unless the document has the delimiter in it or
ends in a carriage return. A text is no fixture where the opening delimiter is not in front, or no
closing one follows (`fixture_parts`).
-/

namespace Stencil

namespace Fixture

variable {cs front back : List Char}

/-- What stands in front of a fixture and behind its document's last line. -/
def dashes : List Char := ['-', '-', '-']

/-- What divides a document from the template behind it. -/
def delimiter : List Char := '\n' :: dashes

/-- How a line ends. -/
inductive LineEnd where
  | feed
  | returnAndFeed
  deriving DecidableEq, Repr

/-- What stands in front of the line feed. -/
def LineEnd.returns : LineEnd → List Char
  | .feed => []
  | .returnAndFeed => ['\r']

/-- The characters of a line end. -/
def LineEnd.chars (e : LineEnd) : List Char := e.returns ++ ['\n']

/-- The text of a fixture with so many byte order marks in front. -/
def written (marks : Nat) (first second third : LineEnd) (document template : String) : String :=
  String.ofList (List.replicate marks '\uFEFF' ++ dashes ++ first.chars ++ document.toList
    ++ second.chars ++ dashes ++ third.chars ++ template.toList)

/-- What follows the opening delimiter, without the line end behind it if there is one. -/
def IsBody (cs body : List Char) : Prop :=
  (∃ e : LineEnd, cs = dashes ++ e.chars ++ body) ∨
    (cs = dashes ++ body ∧ ∀ e : LineEnd, ¬ e.chars <+: body)

/-! ### Line ends -/

theorem dropLineEnd_chars (e : LineEnd) (cs : List Char) : dropLineEnd (e.chars ++ cs) = cs := by
  cases e <;> rfl

theorem dropLineEnd_of_no_end (h : ∀ e : LineEnd, ¬ e.chars <+: cs) : dropLineEnd cs = cs := by
  unfold dropLineEnd
  split
  · exact absurd (List.prefix_append ['\n'] _) (h .feed)
  · exact absurd (List.prefix_append ['\r', '\n'] _) (h .returnAndFeed)
  · rfl

theorem exists_chars_or (cs : List Char) :
    (∃ (e : LineEnd) (rest : List Char), cs = e.chars ++ rest) ∨
      ∀ e : LineEnd, ¬ e.chars <+: cs := by
  by_cases h : ∃ e : LineEnd, e.chars <+: cs
  · obtain ⟨e, rest, rfl⟩ := h
    exact .inl ⟨e, rest, rfl⟩
  · exact .inr (not_exists.1 h)

theorem isBody_iff (cs body : List Char) :
    IsBody cs body ↔ ∃ rest, cs = dashes ++ rest ∧ body = dropLineEnd rest := by
  constructor
  · rintro (⟨e, rfl⟩ | ⟨rfl, hbody⟩)
    · exact ⟨e.chars ++ body, List.append_assoc .., (dropLineEnd_chars e body).symm⟩
    · exact ⟨body, rfl, (dropLineEnd_of_no_end hbody).symm⟩
  · rintro ⟨rest, rfl, rfl⟩
    rcases exists_chars_or rest with ⟨e, rest, rfl⟩ | hnone
    · refine .inl ⟨e, ?_⟩
      rw [dropLineEnd_chars, List.append_assoc]
    · rw [dropLineEnd_of_no_end hnone]
      exact .inr ⟨rfl, hnone⟩

theorem dropReturns_of_getLast? (h : cs.getLast? ≠ some '\r') (e : LineEnd) :
    dropReturns (cs ++ e.returns) = cs := by
  have hself : dropReturns cs = cs := by
    unfold dropReturns
    rw [← List.head?_reverse] at h
    rcases hr : cs.reverse with _ | ⟨c, rest⟩
    · rw [List.reverse_eq_nil_iff.1 hr]
      rfl
    · rw [hr] at h
      have hc : (c == '\r') = false := by simpa using h
      rw [List.dropWhile_cons, hc, ← hr]
      simp
  cases e with
  | feed => rw [LineEnd.returns, List.append_nil, hself]
  | returnAndFeed =>
    rw [LineEnd.returns, dropReturns, List.reverse_append]
    exact hself

/-! ### The closing delimiter -/

theorem divide_delimiter (back : List Char) : divide (delimiter ++ back) = some ([], back) := rfl

theorem divide_of_no_delimiter {c : Char} (h : ¬ delimiter <+: c :: cs) :
    divide (c :: cs) = (divide cs).map fun (front, back) => (c :: front, back) := by
  rw [divide.eq_def]
  split
  · rename_i heq
    exact absurd (heq ▸ List.prefix_append delimiter _) h
  · rename_i heq
    obtain ⟨rfl, rfl⟩ := List.cons.inj heq
    rfl
  · rename_i heq
    cases heq

/-- The delimiter begins with a line feed and has no other, so it does not begin in a list that does
not have it and end behind that. -/
theorem not_prefix_append {c : Char} (h : ¬ delimiter <+: c :: cs) (back : List Char) :
    ¬ delimiter <+: (c :: cs) ++ (delimiter ++ back) := by
  intro hpre
  rcases List.prefix_or_prefix_of_prefix hpre (List.prefix_append (c :: cs) _) with
    hcs | ⟨rest, hcs⟩
  · exact h hcs
  · rw [← hcs, List.prefix_append_right_inj] at hpre
    obtain ⟨hc, hdashes⟩ := List.cons.inj hcs
    rcases rest with _ | ⟨d, rest⟩
    · exact h ⟨[], by simpa using hcs.symm⟩
    · have hdc : d = c := (List.cons_prefix_cons.1 hpre).1
      have hdash : d ∈ dashes := hdashes ▸ List.mem_append_right _ List.mem_cons_self
      rw [hdc, hc] at hdash
      exact absurd hdash (by decide)

theorem divide_append (h : ¬ delimiter <:+: front) (back : List Char) :
    divide (front ++ (delimiter ++ back)) = some (front, back) := by
  induction front with
  | nil => exact divide_delimiter back
  | cons c front ih =>
    rw [List.infix_cons_iff, not_or] at h
    rw [List.cons_append, divide_of_no_delimiter, ih h.2]
    · rfl
    · exact not_prefix_append h.1 back

theorem divide_eq_none_iff : divide cs = none ↔ ¬ delimiter <:+: cs := by
  induction cs with
  | nil => simp [divide, delimiter]
  | cons c cs ih =>
    rw [List.infix_cons_iff, not_or, ← ih]
    by_cases h : delimiter <+: c :: cs
    · obtain ⟨back, hback⟩ := h
      simp [← hback, divide_delimiter]
    · simp [divide_of_no_delimiter h, h]

theorem not_infix_append_returns (h : ¬ delimiter <:+: cs) (e : LineEnd) :
    ¬ delimiter <:+: cs ++ e.returns := by
  cases e with
  | feed => rwa [LineEnd.returns, List.append_nil]
  | returnAndFeed =>
    rw [LineEnd.returns, List.infix_concat_iff, not_or]
    refine ⟨fun hsuffix => ?_, h⟩
    have hlast := hsuffix.getLast (show delimiter ≠ [] by decide)
    simp [delimiter, dashes] at hlast

/-! ### Both parts -/

theorem parts_dashes (cs : List Char) : parts (dashes ++ cs) =
    match divide (dropLineEnd cs) with
    | some (front, back) => .ok (dropReturns front, dropLineEnd back)
    | none => .error .noClosing := rfl

theorem parts_of_no_dashes (h : ¬ dashes <+: cs) : parts cs = .error .noOpening := by
  unfold parts
  split
  · exact absurd (List.prefix_append dashes _) h
  · rfl

theorem dropMarks_replicate (marks : Nat) (cs : List Char) :
    dropMarks (List.replicate marks '\uFEFF' ++ (dashes ++ cs)) = dashes ++ cs := by
  rw [dropMarks, List.dropWhile_append_of_pos]
  · rfl
  · simp

theorem parts_written (marks : Nat) (first second third : LineEnd) {document : String}
    (hdelimiter : ¬ delimiter <:+: document.toList) (hreturn : document.toList.getLast? ≠ some '\r')
    (template : String) :
    parts (dropMarks (written marks first second third document template).toList) =
      .ok (document.toList, template.toList) := by
  have hback : document.toList ++ second.chars ++ dashes ++ third.chars ++ template.toList =
      (document.toList ++ second.returns) ++ (delimiter ++ (third.chars ++ template.toList)) := by
    simp [LineEnd.chars, delimiter]
  have hall : (written marks first second third document template).toList =
      List.replicate marks '\uFEFF' ++ (dashes ++ (first.chars ++ (document.toList ++ second.chars
        ++ dashes ++ third.chars ++ template.toList))) := by
    simp [written]
  rw [hall, dropMarks_replicate, parts_dashes, dropLineEnd_chars, hback,
    divide_append (not_infix_append_returns hdelimiter second)]
  simp only [dropReturns_of_getLast? hreturn, dropLineEnd_chars]

theorem ofText_eq (text : String) : ofText text =
    match parts (dropMarks text.toList) with
    | .error e => .error e
    | .ok (front, back) =>
      match Expectation.ofText (String.ofList front) with
      | .error why => .error (.notToml why)
      | .ok x => .ok ⟨x, String.ofList back⟩ := by
  unfold ofText
  rcases parts (dropMarks text.toList) with e | ⟨front, back⟩
  · rfl
  · simp only [bind, Except.bind]
    rcases Expectation.ofText (String.ofList front) with why | x <;> rfl

theorem ofText_eq_error_iff (text : String) {e : FixtureFault} (he : ∀ why, e ≠ .notToml why) :
    ofText text = .error e ↔ parts (dropMarks text.toList) = .error e := by
  rw [ofText_eq]
  rcases parts (dropMarks text.toList) with e' | ⟨front, back⟩
  · simp
  · rcases hx : Expectation.ofText (String.ofList front) with why | x
    · simpa [hx] using (he why).symm
    · simp [hx]

theorem parts_eq_noOpening_iff : parts cs = .error .noOpening ↔ ¬ dashes <+: cs := by
  refine ⟨?_, parts_of_no_dashes⟩
  rintro h ⟨rest, rfl⟩
  rw [parts_dashes] at h
  rcases hd : divide (dropLineEnd rest) with _ | ⟨front, back⟩ <;> simp [hd] at h

theorem parts_eq_noClosing_iff :
    parts cs = .error .noClosing ↔ ∃ body, IsBody cs body ∧ ¬ delimiter <:+: body := by
  have hbody : (∃ body, IsBody cs body ∧ ¬ delimiter <:+: body) ↔
      ∃ rest, cs = dashes ++ rest ∧ divide (dropLineEnd rest) = none := by
    simp only [isBody_iff, divide_eq_none_iff]
    constructor
    · rintro ⟨-, ⟨rest, hcs, rfl⟩, hnone⟩
      exact ⟨rest, hcs, hnone⟩
    · rintro ⟨rest, hcs, hnone⟩
      exact ⟨_, ⟨rest, hcs, rfl⟩, hnone⟩
  rw [hbody]
  constructor
  · intro h
    by_cases hpre : dashes <+: cs
    · obtain ⟨rest, rfl⟩ := hpre
      refine ⟨rest, rfl, ?_⟩
      rw [parts_dashes] at h
      rcases hd : divide (dropLineEnd rest) with _ | ⟨front, back⟩
      · rfl
      · rw [hd] at h
        cases h
    · rw [parts_of_no_dashes hpre] at h
      cases h
  · rintro ⟨rest, rfl, hnone⟩
    rw [parts_dashes, hnone]

/-- A fixture that is written with a document and a template has what the document states as its
expectation, and the template as its source, whatever line ends and byte order marks it is written
with, if the document neither has the delimiter in it nor ends in a carriage return; where the
document states nothing, the fault is the document's. Of any other text, the opening delimiter is
missing exactly if it does not follow the byte order marks, and the closing one exactly if there is
none behind the opening one and its line end. -/
theorem fixture_parts :
    (∀ (marks : Nat) (first second third : LineEnd) (document template : String),
      ¬ delimiter <:+: document.toList → document.toList.getLast? ≠ some '\r' →
      (∀ x, Expectation.ofText document = .ok x →
        ofText (written marks first second third document template) = .ok ⟨x, template⟩) ∧
      (∀ why, Expectation.ofText document = .error why →
        ofText (written marks first second third document template) = .error (.notToml why))) ∧
    (∀ text, ofText text = .error .noOpening ↔ ¬ dashes <+: dropMarks text.toList) ∧
    (∀ text, ofText text = .error .noClosing ↔
      ∃ body, IsBody (dropMarks text.toList) body ∧ ¬ delimiter <:+: body) := by
  refine ⟨fun marks first second third document template hdelimiter hreturn => ?_, fun text => ?_,
    fun text => ?_⟩
  · rw [ofText_eq, parts_written marks first second third hdelimiter hreturn template]
    simp only [String.ofList_toList]
    constructor <;> intro _ h <;> rw [h]
  · rw [ofText_eq_error_iff text (by simp), parts_eq_noOpening_iff]
  · rw [ofText_eq_error_iff text (by simp), parts_eq_noClosing_iff]

/-- Two marks, a document with an empty line at its end, line ends of both kinds, and a template
that has the delimiter in it. -/
theorem fixture_parts_mixed :
    let document := "exact = true\n\n"
    let template := "\n---\ny"
    ¬ delimiter <:+: document.toList ∧ document.toList.getLast? ≠ some '\r' ∧
      ∃ x, Expectation.ofText document = .ok x ∧ x.exact = true ∧
        ofText (written 2 .returnAndFeed .feed .returnAndFeed document template) =
          .ok ⟨x, template⟩ := by
  intro document template
  have hdelimiter : ¬ delimiter <:+: document.toList := by decide +kernel
  have hreturn : document.toList.getLast? ≠ some '\r' := by decide +kernel
  have hx : (Expectation.ofText document).toOption.map (·.exact) = some true := by decide +kernel
  rcases hd : Expectation.ofText document with why | x <;> rw [hd] at hx
  · cases hx
  · have hparts := fixture_parts.1 2 .returnAndFeed .feed .returnAndFeed document template
      hdelimiter hreturn
    exact ⟨hdelimiter, hreturn, x, rfl, Option.some.inj hx, hparts.1 x hd⟩

end Fixture

end Stencil
