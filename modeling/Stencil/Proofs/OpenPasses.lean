import Mathlib.Tactic.SplitIfs
import Stencil.Render

/-!
# Open passes

A rendering in single steps, with the passes that are open kept in a list: a pass over the tags of
a template stops at a tag that asks for others and goes on when they have ended. No level is counted
down here. How deep a tag is, is how many passes are open around its own, and this is compared with
the limit where a body or a file is asked for (`Renderer.checkDepth`).

The steps end, with the result of the rendering (`reaches_page`), and at no time are more passes
open than the limit allows, and one (`passes_run_le`).
-/

namespace Stencil

/-- What a pass begins with. -/
structure PassStart where
  page : Page
  template : Template
  scope : Bindings

/-- A pass that has begun. -/
structure OpenPass extends PassStart where
  cursor : Nat
  rest : List LinkedTag
  /-- What has been put out. -/
  out : Chain
  /-- What the tag at hand has asked for and what has not begun. -/
  asked : List PassStart

def PassStart.pass (o : PassStart) : OpenPass := ⟨o, o.template.range.start, o.template.tags, ∅, []⟩

/-- How far a rendering has come. -/
inductive Progress where
  | underway (p : OpenPass) (around : List OpenPass)
  | ended (result : Except RenderFault Chain)

namespace Progress

/-- The number of passes that are open. -/
def passes : Progress → Nat
  | underway _ around => around.length + 1
  | ended _ => 0

/-- The innermost pass has ended, and the one around it goes on. -/
def after : Except RenderFault Chain → List OpenPass → Progress
  | .error e, _ => ended (.error e)
  | .ok out, [] => ended (.ok out)
  | .ok out, p :: around => underway { p with out := p.out ++ out } around

end Progress

/-- The tag at hand has given something and has asked for passes. -/
def OpenPass.asking (p : OpenPass) (around : List OpenPass) :
    Except RenderFault (Chain × List PassStart) → Progress
  | .error e => .ended (.error e)
  | .ok (out, asked) => .underway { p with out := p.out ++ out, asked := asked } around

namespace Renderer

variable (r : Renderer) (files : Files)

/-- One more pass may be opened where the passes around are fewer than the limit. -/
def checkDepth (depth : Nat) (page : Page) (tag : Tag) : Except RenderFault Unit :=
  if r.maxDepth ≤ depth then .error (.tooDeep r.maxDepth tag.span page.path) else .ok ()

/-- What an action gives at once, and what it asks for. -/
def ask (depth : Nat) (page : Page) (tag : Tag) (b : Bindings) :
    Action → Except RenderFault (Chain × List PassStart)
  | .emit value => .ok (.ofBytes value, [])
  | .each body scopes => do
    r.checkDepth depth page tag
    let t ← (page.parse body).result
    return (∅, scopes.map fun b => ⟨page, t, b⟩)
  | .paste name => do
    r.checkDepth depth page tag
    match files (r.resolve name) with
    | .error _ => return (∅, [])
    | .ok source => do
      let page : Page := ⟨source, some (r.resolve name)⟩
      let t ← page.parseAll.result
      return (∅, [⟨page, t, b⟩])

/-- Deals with a tag of the innermost pass. -/
def take (p : OpenPass) (around : List OpenPass) (t : LinkedTag) (rest : List LinkedTag) :
    Progress :=
  if t.span.start < p.cursor then .underway { p with rest := rest } around
  else
    match (p.page.dispatch p.template t p.scope).result with
    | .error e => .ended (.error e)
    | .ok (action, next) =>
      let text : Chain := .ofBytes (p.page.source.slice p.cursor t.span.start)
      { p with cursor := next, rest := rest, out := p.out ++ text }.asking around
        (r.ask files around.length p.page t.toTag p.scope action)

/-- One step: a pass that was asked for begins, or a tag is dealt with, or the pass ends. -/
def step : Progress → Progress
  | .underway p around =>
    match p.asked, p.rest with
    | o :: asked, _ => .underway o.pass ({ p with asked := asked } :: around)
    | [], t :: rest => r.take files p around t rest
    | [], [] =>
      .after (.ok (p.out ++ .ofBytes (p.page.source.slice p.cursor p.template.range.stop))) around
  | .ended x => .ended x

def run : Nat → Progress → Progress
  | 0, s => s
  | n + 1, s => run n (r.step files s)

/-- A page that is about to be rendered. -/
def start (p : Page) (b : Bindings) : Progress :=
  match p.parseAll.result with
  | .ok t => .underway (PassStart.pass ⟨p, t, b⟩) []
  | .error e => .ended (.error e)

def Reaches (s s' : Progress) : Prop := ∃ n, r.run files n s = s'

section Steps

variable {r : Renderer} {files : Files} {p : OpenPass} {around : List OpenPass}

theorem step_asked {o : PassStart} {asked : List PassStart} (ha : p.asked = o :: asked) :
    r.step files (.underway p around) =
      .underway o.pass ({ p with asked := asked } :: around) := by
  simp only [step, ha]

theorem step_tag {t : LinkedTag} {rest : List LinkedTag} (ha : p.asked = [])
    (hr : p.rest = t :: rest) :
    r.step files (.underway p around) = r.take files p around t rest := by
  simp only [step, ha, hr]

theorem step_end (ha : p.asked = []) (hr : p.rest = []) : r.step files (.underway p around) =
    .after (.ok (p.out ++ .ofBytes (p.page.source.slice p.cursor p.template.range.stop)))
      around := by
  simp only [step, ha, hr]

end Steps

end Renderer

/-! ## The limit -/

/-- No pass has more passes around it than the limit, and one that waits for others has fewer. -/
def OpenPass.Within (limit : Nat) : List OpenPass → Prop
  | [] => True
  | p :: around =>
    around.length ≤ limit ∧ (p.asked ≠ [] → around.length < limit) ∧ Within limit around

def Progress.Within (limit : Nat) : Progress → Prop
  | underway p around => OpenPass.Within limit (p :: around)
  | ended _ => True

theorem Progress.Within.passes_le {limit : Nat} {s : Progress} (h : s.Within limit) :
    s.passes ≤ limit + 1 := by
  cases s with
  | underway p around => exact Nat.succ_le_succ h.1
  | ended x => exact Nat.zero_le _

namespace Renderer

variable {r : Renderer} {files : Files} {depth : Nat} {page : Page} {tag : Tag} {b : Bindings}
  {action : Action} {p : OpenPass} {around : List OpenPass}

theorem lt_of_checkDepth (h : r.checkDepth depth page tag = .ok ()) : depth < r.maxDepth := by
  unfold checkDepth at h
  split at h
  · cases h
  · omega

theorem lt_of_ask {out : Chain} {asked : List PassStart}
    (h : r.ask files depth page tag b action = .ok (out, asked)) (ha : asked ≠ []) :
    depth < r.maxDepth := by
  cases action with
  | emit value =>
    obtain ⟨-, rfl⟩ := Prod.mk.inj (Except.ok.inj h)
    exact absurd rfl ha
  | each body scopes =>
    rcases hcheck : r.checkDepth depth page tag with e | u
    · simp [ask, hcheck] at h
    · exact lt_of_checkDepth hcheck
  | paste name =>
    rcases hcheck : r.checkDepth depth page tag with e | u
    · simp [ask, hcheck] at h
    · exact lt_of_checkDepth hcheck

theorem within_after {limit : Nat} (h : OpenPass.Within limit around)
    (x : Except RenderFault Chain) : (Progress.after x around).Within limit := by
  rcases x with e | out
  · trivial
  · cases around with
    | nil => trivial
    | cons p around => exact h

theorem within_take {t : LinkedTag} {rest : List LinkedTag} (ha : p.asked = [])
    (h : OpenPass.Within r.maxDepth (p :: around)) :
    (r.take files p around t rest).Within r.maxDepth := by
  obtain ⟨hlen, -, haround⟩ := h
  unfold take
  split_ifs
  · exact ⟨hlen, fun hne => absurd ha hne, haround⟩
  · rcases (p.page.dispatch p.template t p.scope).result with e | ⟨action, next⟩
    · trivial
    · simp only
      rcases hk : r.ask files around.length p.page t.toTag p.scope action with e | ⟨out, asked⟩
      · trivial
      · exact ⟨hlen, lt_of_ask hk, haround⟩

theorem within_step {s : Progress} (h : s.Within r.maxDepth) :
    (r.step files s).Within r.maxDepth := by
  cases s with
  | ended x => trivial
  | underway p around =>
    rcases ha : p.asked with _ | ⟨o, asked⟩
    · rcases hr : p.rest with _ | ⟨t, rest⟩
      · rw [step_end ha hr]
        exact within_after h.2.2 _
      · rw [step_tag ha hr]
        exact within_take ha h
    · obtain ⟨hlen, hasked, haround⟩ := h
      -- the pass that begins has one more around it, which has asked for it
      rw [step_asked ha]
      have hlt : around.length < r.maxDepth := hasked (by rw [ha]; exact List.cons_ne_nil _ _)
      exact ⟨hlt, fun hne => absurd rfl hne, hlen, fun _ => hlt, haround⟩

theorem within_run : ∀ (n : Nat) {s : Progress}, s.Within r.maxDepth →
    (r.run files n s).Within r.maxDepth
  | 0, _, h => h
  | n + 1, _, h => within_run n (within_step h)

theorem within_start (r : Renderer) (p : Page) (b : Bindings) :
    (start p b).Within r.maxDepth := by
  unfold start
  rcases p.parseAll.result with e | t
  · trivial
  · exact ⟨Nat.zero_le _, fun hne => absurd rfl hne, trivial⟩

/-- At no time are more passes open than the limit, and one. -/
theorem passes_run_le (r : Renderer) (files : Files) (p : Page) (b : Bindings) (n : Nat) :
    (r.run files n (start p b)).passes ≤ r.maxDepth + 1 :=
  (within_run n (within_start r p b)).passes_le

/-! ## The steps end -/

theorem run_run (m : Nat) : ∀ (n : Nat) (s : Progress),
    r.run files m (r.run files n s) = r.run files (n + m) s
  | 0, s => by
    rw [Nat.zero_add]
    rfl
  | n + 1, s => by
    rw [Nat.add_right_comm]
    exact run_run m n (r.step files s)

namespace Reaches

variable {s s' s'' : Progress}

theorem refl (s : Progress) : r.Reaches files s s := ⟨0, rfl⟩

theorem trans (h : r.Reaches files s s') (h' : r.Reaches files s' s'') :
    r.Reaches files s s'' := by
  obtain ⟨n, rfl⟩ := h
  obtain ⟨m, rfl⟩ := h'
  exact ⟨n + m, (run_run m n s).symm⟩

theorem of_step (h : r.Reaches files (r.step files s) s') : r.Reaches files s s' := by
  obtain ⟨n, h⟩ := h
  exact ⟨n + 1, h⟩

end Reaches

/-- With so many levels left, a pass goes through its template and ends with what the way one level
down gives, whatever passes are around it. -/
def Runs (r : Renderer) (files : Files) (levels : Nat) (deeper : Deeper) : Prop :=
  ∀ (o : PassStart) (around : List OpenPass), around.length + levels = r.maxDepth →
    r.Reaches files (.underway o.pass around)
      (.after (deeper o.page o.template o.scope).result around)

/-- The way one level down is closed where the limit is reached, and else the steps go along it. -/
def Deep (r : Renderer) (files : Files) (depth : Nat) : Option Deeper → Prop
  | none => depth = r.maxDepth
  | some deeper => ∃ levels, depth + 1 + levels = r.maxDepth ∧ r.Runs files levels deeper

theorem reaches_forEach {levels : Nat} {deeper : Deeper} {t : Template}
    (hruns : r.Runs files levels deeper) (hlevels : around.length + 1 + levels = r.maxDepth) :
    ∀ (scopes : List Bindings) (p : OpenPass), p.asked = (scopes.map fun b => ⟨page, t, b⟩) →
      r.Reaches files (.underway p around)
        (.after (deeper.forEach page t scopes).result ({ p with asked := [] } :: around))
  | [], p, ha => by
    obtain ⟨o, cursor, rest, out, asked⟩ := p
    obtain rfl : asked = [] := ha
    have hout : out ++ ∅ = out := Chain.append_empty out
    simp only [Deeper.forEach, Rendering.result_pure, Progress.after, hout]
    exact .refl _
  | b :: scopes, p, ha => by
    refine .of_step ?_
    rw [step_asked ha]
    refine (hruns ⟨page, t, b⟩ (_ :: around) hlevels).trans ?_
    simp only [Deeper.forEach, Rendering.result_bind]
    rcases (deeper page t b).result with e | out
    · exact .refl _
    · -- what the first scope gives is put out before the others are begun
      have ih := reaches_forEach hruns hlevels scopes
        { p with out := p.out ++ out, asked := scopes.map fun b => ⟨page, t, b⟩ } rfl
      rcases hmore : (deeper.forEach page t scopes).result with e | more
      · rwa [hmore] at ih
      · rw [hmore, Progress.after, Chain.append_assoc] at ih
        exact ih

/-- Where a tag has asked for passes, the steps lead behind the tag. -/
theorem reaches_perform {deeper : Option Deeper} (hdeep : r.Deep files around.length deeper)
    (p : OpenPass) :
    r.Reaches files (p.asking around (r.ask files around.length page tag b action))
      (.after (r.perform files deeper page tag b action).result
        ({ p with asked := [] } :: around)) := by
  have hout : p.out ++ ∅ = p.out := Chain.append_empty p.out
  rcases deeper with _ | deeper
  · have hcheck : r.checkDepth around.length page tag =
        .error (.tooDeep r.maxDepth tag.span page.path) := if_pos (Nat.le_of_eq hdeep.symm)
    cases action with
    | emit value => exact .refl _
    | each body scopes =>
      rw [ask, hcheck]
      exact .refl _
    | paste name =>
      rw [ask, hcheck]
      exact .refl _
  · obtain ⟨levels, hlevels, hruns⟩ := hdeep
    have hcheck : r.checkDepth around.length page tag = .ok () := if_neg (by omega)
    cases action with
    | emit value => exact .refl _
    | each body scopes =>
      simp only [ask, hcheck, perform, descend, Rendering.result_bind, Rendering.result_pure,
        Rendering.ok_bind]
      rcases (page.parse body).result with e | t
      · exact .refl _
      · show r.Reaches files (.underway { p with out := p.out ++ ∅, asked := _ } around) _
        rw [hout]
        exact reaches_forEach hruns hlevels scopes { p with asked := _ } rfl
    | paste name =>
      simp only [ask, hcheck, perform, descend, Rendering.result_bind, Rendering.result_pure,
        Rendering.ok_bind]
      rcases files (r.resolve name) with why | source
      · exact .refl _
      · simp only [Rendering.result_bind, Rendering.result_note, Rendering.ok_bind]
        rcases (Page.parseAll ⟨source, some (r.resolve name)⟩).result with e | t
        · exact .refl _
        · -- the pass over the file is the only one
          show r.Reaches files (.underway { p with out := p.out ++ ∅, asked := [_] } around) _
          rw [hout]
          refine .of_step ?_
          rw [step_asked rfl]
          exact hruns ⟨_, t, b⟩ (_ :: around) hlevels

theorem reaches_walk {deeper : Option Deeper} (hdeep : r.Deep files around.length deeper) :
    ∀ (rest : List LinkedTag) (p : OpenPass), p.asked = [] → p.rest = rest →
      r.Reaches files (.underway p around)
        (.after ((r.walk files deeper p.page p.template p.scope p.cursor rest).result.map
          (p.out ++ ·)) around)
  | [], p, ha, hr => by
    refine .of_step ?_
    rw [step_end ha hr]
    exact .refl _
  | t :: rest, p, ha, hr => by
    refine .of_step ?_
    rw [step_tag ha hr, walk, take]
    split_ifs
    · exact reaches_walk hdeep rest { p with rest := rest } ha rfl
    · simp only [Rendering.result_bind]
      rcases hd : (p.page.dispatch p.template t p.scope).result with e | ⟨action, next⟩
      · exact .refl _
      · -- what the tag asks for is done, and the walk goes on behind the tag
        refine (reaches_perform hdeep _).trans ?_
        simp only [Rendering.ok_bind]
        rcases (r.perform files deeper p.page t.toTag p.scope action).result with e | out
        · exact .refl _
        · have hout : ∀ text more : Chain,
              p.out ++ text ++ out ++ more = p.out ++ (text ++ out ++ more) := by
            simp only [Chain.append_assoc, implies_true]
          have ih := reaches_walk hdeep rest { p with
            cursor := next, rest := rest, asked := [],
            out := p.out ++ .ofBytes (p.page.source.slice p.cursor t.span.start) ++ out } rfl rfl
          simp only at ih
          rcases hmore : (r.walk files deeper p.page p.template p.scope next rest).result
            with e | more
          · rw [hmore] at ih
            exact ih
          · rw [hmore, Rendering.map_ok, hout] at ih
            exact ih

theorem map_empty_append (x : Except RenderFault Chain) : x.map (∅ ++ ·) = x := by
  rcases x with e | out
  · rfl
  · exact congrArg Except.ok (Chain.empty_append out)

/-- Where the passes around and the levels left are as many as the limit, the steps of a pass end
as its template is rendered. -/
theorem runs_template (r : Renderer) (files : Files) : ∀ levels : Nat,
    r.Runs files levels (r.template files levels)
  | 0, o, around, hlevels => by
    have hdeep : r.Deep files around.length none := hlevels
    have hwalk := reaches_walk hdeep _ o.pass rfl rfl
    rwa [show o.pass.out = ∅ from rfl, map_empty_append] at hwalk
  | levels + 1, o, around, hlevels => by
    have hdeep : r.Deep files around.length (some (r.template files levels)) :=
      ⟨levels, by omega, runs_template r files levels⟩
    have hwalk := reaches_walk hdeep _ o.pass rfl rfl
    rwa [show o.pass.out = ∅ from rfl, map_empty_append] at hwalk

/-- The steps of a rendering end with its result. -/
theorem reaches_page (r : Renderer) (files : Files) (p : Page) (b : Bindings) :
    r.Reaches files (start p b) (.ended (r.page files p b).result) := by
  simp only [start, Renderer.page, Rendering.result_bind]
  rcases p.parseAll.result with e | t
  · exact .refl _
  · have h := runs_template r files r.maxDepth ⟨p, t, b⟩ [] (Nat.zero_add _)
    simp only [Rendering.ok_bind]
    rcases hx : (r.template files r.maxDepth p t b).result with e | out
    · rwa [hx] at h
    · rwa [hx] at h

end Renderer

end Stencil
