import Mathlib.Algebra.GroupWithZero.Nat
import Mathlib.Data.List.TakeDrop
import Mathlib.Data.List.TakeWhile
import Stencil.Command
import Stencil.Proofs.ArgumentReading

/-!
# Leaving out the command's name

A template may be rendered without naming the command. The name is then put before the first
argument that has no dash, so all arguments before that one must be such as every command takes.
Where they are, leaving out the name changes nothing but how much of the log is shown, since
requests for more that stand before the name count only where there are none behind it. Elsewhere
the command line is refused, even where that first argument is only the value of another one.
-/

namespace Stencil.Command

open Signature

/-- Whether an argument is one that can stand before the name of any command. -/
def isCommon (text : String) : Bool :=
  match text.toList with
  | '-' :: '-' :: long => String.ofList long == "no-color" || String.ofList long == "verbose"
  | '-' :: letters => letters != [] && letters.all (· == 'v')
  | _ => false

/-- How often common arguments ask for more of the log: `--no-color` has no `v`, `--verbose` has
one. -/
def requests (texts : List String) : Nat := (texts.map (·.toList.count 'v')).sum

/-- The arguments before the first one that has no dash. -/
def front (args : List String) : List String := args.takeWhile hasDash

namespace Given

/-- What such arguments give, with the number of requests for more. -/
structure Common (g : Given) (more : Nat) : Prop where
  operands : g.operands = []
  settings : ∀ s ∈ g.settings, s.1 = "no-color" ∨ s.1 = "verbose"
  count : g.count "verbose" = more

variable {g h : Given} {m n : Nat}

theorem common_nothing : nothing.Common 0 := ⟨rfl, by simp [nothing], rfl⟩

theorem Common.append (hg : g.Common m) (hh : h.Common n) : (g ++ h).Common (m + n) where
  operands := by simp [append_def, hg.operands, hh.operands]
  settings s hs := by
    rcases List.mem_append.mp hs with hs | hs
    · exact hg.settings s hs
    · exact hh.settings s hs
  count := by rw [count_append, hg.count, hh.count]

theorem Common.values_append (hg : g.Common n) {long : String} (hcolor : long ≠ "no-color")
    (hverbose : long ≠ "verbose") : (g ++ h).values long = h.values long := by
  have hnone : g.values long = [] := by
    simp only [values, List.map_eq_nil_iff, List.filter_eq_nil_iff, decide_eq_true_eq]
    rintro s hs rfl
    exact (hg.settings s hs).elim hcolor hverbose
  rw [Given.values_append, hnone, List.nil_append]

/-- Common settings do not change what is rendered. -/
theorem Common.ofGiven_append (hg : g.Common n) (h : Given) :
    RenderOptions.ofGiven (g ++ h) = RenderOptions.ofGiven h := by
  have hoperand : operand (g ++ h) = operand h := by
    simp [operand, append_def, hg.operands]
  simp [RenderOptions.ofGiven, hoperand, value?, hg.values_append]

end Given

/-! ### Reading without the name -/

/-- What is read where the name is missing, told from what `render` reads. What is common is read
alike, and anything else is refused. -/
inductive Alone (common : Prop) (more : Nat) (g r : Given) (waiting : Option Setting) :
    Except Stop (Given × Option Setting) → Prop
  | alike (extra : Given) : common → extra.Common more → r = g ++ extra → waiting = none →
    Alone common more g r waiting (.ok (r, none))
  | refused (e : UsageFault) : ¬ common → Alone common more g r waiting (.error (.usage e))

variable {g r : Given} {waiting : Option Setting} {text : String}

/-- One more request for more. -/
def once : Given := ⟨[("verbose", "")], []⟩

theorem common_once : once.Common 1 := ⟨rfl, by simp [once], rfl⟩

theorem readLetters_verbose {sig : Signature} {cs : List Char}
    (h : sig.ofLetter? 'v' = some ⟨"verbose", some 'v', .counted, anyValue⟩) :
    sig.readLetters g ('v' :: cs) = sig.readLetters (g ++ once) cs := by
  simp [readLetters, h, Arity.takesValue, Given.addSetting, anyValue, Given.append_def, once]

theorem commonSignature_ofLetter? {c : Char} (hv : c ≠ 'v') (hh : c ≠ 'h') (hV : c ≠ 'V') :
    commonSignature.ofLetter? c = none := by
  simp [ofLetter?, commonSignature, commonSettings, hv.symm, hh.symm, hV.symm]

/-- Letters that the command takes are all `v`, or else one of them is unknown without its name. -/
theorem readLetters_alone : ∀ {cs : List Char} {g : Given},
    renderSignature.readLetters g cs = .ok (r, waiting) →
      Alone (∀ c ∈ cs, c = 'v') (cs.count 'v') g r waiting (commonSignature.readLetters g cs)
  | [], g, h => by
    cases h
    exact .alike .nothing (by simp) Given.common_nothing (Given.append_nothing _).symm rfl
  | c :: cs, g, h => by
    by_cases hv : c = 'v'
    · subst hv
      rw [readLetters_verbose rfl] at h ⊢
      have halone := readLetters_alone h
      generalize commonSignature.readLetters (g ++ once) cs = alone at halone ⊢
      rcases halone with ⟨extra, hall, hextra, rfl, rfl⟩ | ⟨e, hall⟩
      · refine .alike (once ++ extra) (by simpa using hall) ?_ (Given.append_assoc ..) rfl
        rw [List.count_cons_self, Nat.add_comm]
        exact common_once.append hextra
      · exact .refused e (by simpa using hall)
    · have hh : c ≠ 'h' := by
        rintro rfl
        cases h
      have hV : c ≠ 'V' := by
        rintro rfl
        cases h
      rw [readLetters, commonSignature_ofLetter? hv hh hV]
      exact .refused _ fun hall => hv (hall c (by simp))

theorem addSetting_alone {s : Setting} {common : Prop} (hcommon : common)
    (hs : s.long = "no-color" ∨ s.long = "verbose")
    (h : (g.addSetting s "").map (·, none) = .ok (r, waiting)) :
    Alone common (if s.long = "verbose" then 1 else 0) g r waiting
      ((g.addSetting s "").map (·, none)) := by
  rcases hadd : g.addSetting s "" with e | k <;> rw [hadd] at h <;> cases h
  refine .alike ⟨[(s.long, "")], []⟩ hcommon ⟨rfl, by simpa using hs, ?_⟩
    (Given.addSetting_eq hadd) rfl
  by_cases hverbose : s.long = "verbose" <;> simp [Given.count, Given.values, hverbose]

theorem commonSignature_ofLong? {long : String} (hcolor : long ≠ "no-color")
    (hverbose : long ≠ "verbose") (hhelp : long ≠ "help") (hversion : long ≠ "version") :
    commonSignature.ofLong? long = none := by
  simp [ofLong?, commonSignature, commonSettings, hcolor.symm, hverbose.symm, hhelp.symm,
    hversion.symm]

theorem readLong_alone {long : List Char} (h : renderSignature.readLong g long = .ok (r, waiting)) :
    Alone (String.ofList long = "no-color" ∨ String.ofList long = "verbose") (long.count 'v')
      g r waiting (commonSignature.readLong g long) := by
  by_cases hcommon : String.ofList long = "no-color" ∨ String.ofList long = "verbose"
  · rcases id hcommon with hlong | hlong
    · obtain rfl : long = "no-color".toList := by rw [← hlong, String.toList_ofList]
      exact addSetting_alone (s := ⟨"no-color", none, .flag, anyValue⟩) hcommon (.inl rfl) h
    · obtain rfl : long = "verbose".toList := by rw [← hlong, String.toList_ofList]
      exact addSetting_alone (s := ⟨"verbose", some 'v', .counted, anyValue⟩) hcommon (.inr rfl) h
  · have hvalue (hnone : long.dropWhile (· ≠ '=') = []) : long.takeWhile (· ≠ '=') = long :=
      List.takeWhile_eq_self_iff.mpr (List.dropWhile_eq_nil_iff.mp hnone)
    unfold readLong at h ⊢
    rw [List.span_eq_takeWhile_dropWhile] at h ⊢
    simp only at h ⊢
    generalize long.takeWhile (· ≠ '=') = name at *
    generalize long.dropWhile (· ≠ '=') = value at *
    -- a common name has a value here, which it does not take
    have hlonger (hname : String.ofList name = "no-color" ∨ String.ofList name = "verbose") :
        ∃ c rest, value = c :: rest :=
      List.exists_cons_of_ne_nil fun hnil => hcommon (hvalue hnil ▸ hname)
    have hcolor : String.ofList name ≠ "no-color" := fun hcolor => by
      obtain ⟨c, rest, rfl⟩ := hlonger (.inl hcolor)
      rw [hcolor] at h
      cases h
    have hverbose : String.ofList name ≠ "verbose" := fun hverbose => by
      obtain ⟨c, rest, rfl⟩ := hlonger (.inr hverbose)
      rw [hverbose] at h
      cases h
    have hhelp : String.ofList name ≠ "help" := fun hhelp => by
      rw [hhelp] at h
      rcases value with _ | ⟨c, rest⟩ <;> cases h
    have hversion : String.ofList name ≠ "version" := fun hversion => by
      rw [hversion] at h
      cases h
    rw [commonSignature_ofLong? hcolor hverbose hhelp hversion]
    exact .refused _ hcommon

theorem isSetting_of_isCommon (h : isCommon text) : isSetting text := by
  unfold isCommon at h
  unfold isSetting
  rcases htext : text.toList with _ | ⟨c, _ | ⟨d, rest⟩⟩
  all_goals grind

theorem hasDash_of_isSetting (h : isSetting text) : hasDash text := by
  unfold isSetting at h
  split at h
  · simp [hasDash, *]
  · cases h

theorem eq_dash (hdash : hasDash text) (hsetting : ¬ isSetting text) : text = "-" := by
  unfold hasDash at hdash
  unfold isSetting at hsetting
  rw [← String.toList_inj]
  rcases htext : text.toList with _ | ⟨c, _ | ⟨d, rest⟩⟩ <;> rw [htext] at hdash hsetting
  · cases hdash
  · simpa using hdash
  · obtain rfl : c = '-' := by simpa using hdash
    exact absurd rfl hsetting

theorem readArgument_alone (hsetting : isSetting text)
    (h : renderSignature.readArgument g text = .ok (r, waiting)) :
    Alone (isCommon text) (text.toList.count 'v') g r waiting
      (commonSignature.readArgument g text) := by
  unfold readArgument at h ⊢
  unfold isCommon
  split at h
  · rename_i long htext
    simpa [htext] using readLong_alone h
  · rename_i c cs hdash htext
    have hc : c ≠ '-' := by
      rintro rfl
      exact hdash rfl
    simpa [htext, hc] using readLetters_alone h
  · rename_i hlong hletters
    unfold isSetting at hsetting
    split at hsetting
    · rename_i c cs htext
      exact absurd htext (hletters c cs)
    · cases hsetting

/-- Common arguments are read alike, and what follows them is read as if it followed nothing. -/
theorem readFrom_common : ∀ {before rest : List String} {g : Given},
    (∀ a ∈ before, isCommon a) → renderSignature.readFrom g none (before ++ rest) = .ok r →
      ∃ extra : Given, extra.Common (requests before) ∧
        renderSignature.readFrom (g ++ extra) none rest = .ok r ∧
        ∀ more, commonSignature.readFrom g none (before ++ more) =
          commonSignature.readFrom (g ++ extra) none more
  | [], rest, g, _, h =>
    ⟨.nothing, Given.common_nothing, by rwa [Given.append_nothing],
      fun more => by rw [Given.append_nothing, List.nil_append]⟩
  | text :: before, rest, g, hall, h => by
    have htext : isCommon text := hall text (by simp)
    have hdashes : text ≠ "--" := by
      rintro rfl
      exact absurd htext (by decide)
    rw [List.cons_append, readFrom, if_neg hdashes] at h
    rcases hread : renderSignature.readArgument g text with e | ⟨k, waiting⟩ <;> rw [hread] at h
    · cases h
    have halone := readArgument_alone (isSetting_of_isCommon htext) hread
    generalize hcommon : commonSignature.readArgument g text = alone at halone
    rcases halone with ⟨extra, -, hextra, rfl, rfl⟩ | ⟨e, hnot⟩
    · obtain ⟨extra', hextra', hrest, hmore⟩ :=
        readFrom_common (fun a ha => hall a (List.mem_cons_of_mem _ ha)) h
      refine ⟨extra ++ extra', hextra.append hextra', by rwa [← Given.append_assoc],
        fun more => ?_⟩
      rw [List.cons_append, readFrom, if_neg hdashes, hcommon, ← Given.append_assoc]
      exact hmore more
    · exact absurd htext hnot

theorem read_common {before rest : List String} (hall : ∀ a ∈ before, isCommon a)
    (h : renderSignature.read (before ++ rest) = .ok r) :
    ∃ common : Given, common.Common (requests before) ∧
      commonSignature.read before = .ok common ∧
      renderSignature.readFrom common none rest = .ok r := by
  obtain ⟨common, hcommon, hrest, hmore⟩ := readFrom_common hall h
  have hread := hmore []
  rw [Given.nothing_append] at hrest hread
  rw [List.append_nil] at hread
  exact ⟨common, hcommon, hread, hrest⟩

/-- An argument that is not common is refused, whatever follows it. -/
theorem readFrom_refused {before rest : List String} (hall : ∀ a ∈ before, isCommon a)
    (hsetting : isSetting text) (hdashes : text ≠ "--") (htext : ¬ isCommon text)
    (h : renderSignature.readFrom g none (before ++ text :: rest) = .ok r) (more : List String) :
    ∃ e, commonSignature.readFrom g none (before ++ text :: more) = .error (.usage e) := by
  obtain ⟨extra, -, hrest, hmore⟩ := readFrom_common hall h
  rw [readFrom, if_neg hdashes] at hrest
  rcases hread : renderSignature.readArgument (g ++ extra) text with e | ⟨k, waiting⟩ <;>
    rw [hread] at hrest
  · cases hrest
  have halone := readArgument_alone hsetting hread
  generalize hcommon : commonSignature.readArgument (g ++ extra) text = alone at halone
  rcases halone with ⟨extra', hcommon', -⟩ | ⟨e, -⟩
  · exact absurd hcommon' htext
  · exact ⟨e, by rw [hmore, readFrom, if_neg hdashes, hcommon]⟩

/-! ### Command lines without the name -/

variable {before rest args : List String} {invocation : Invocation}

theorem withCommand_append (hbefore : ∀ a ∈ before, hasDash a) (rest : List String) :
    withCommand (before ++ rest) = before ++ withCommand rest := by
  induction before with
  | nil => rfl
  | cons text before ih =>
    rw [List.cons_append, withCommand, if_pos (hbefore text (by simp)),
      ih fun a ha => hbefore a (List.mem_cons_of_mem _ ha), List.cons_append]

theorem read_of_mem_dashes (hsettings : (withCommand args).takeWhile isSetting = before)
    (hdashes : "--" ∈ before) :
    Invocation.read args = (commonSignature.read (before.takeWhile (· ≠ "--"))).bind
      fun _ => .error (.usage .missingCommand) := by
  unfold Invocation.read
  rw [List.span_eq_takeWhile_dropWhile, hsettings]
  simp only [List.contains_eq_mem, hdashes, decide_true, if_true]
  rcases commonSignature.read (before.takeWhile fun text => text ≠ "--") with e | g <;> rfl

theorem read_of_error {stop : Stop} (hsettings : (withCommand args).takeWhile isSetting = before)
    (hdashes : "--" ∉ before) (hstop : commonSignature.read before = .error stop) :
    Invocation.read args = .error stop := by
  unfold Invocation.read
  rw [List.span_eq_takeWhile_dropWhile, hsettings]
  simp only [List.contains_eq_mem, hdashes, decide_false, Bool.false_eq_true, if_false, hstop]
  rfl

/-- Common arguments, and behind them a name. -/
theorem read_eq_of_common {name : String} {common : Given} (hall : ∀ a ∈ before, isCommon a)
    (hcommon : commonSignature.read before = .ok common) (hname : ¬ isSetting name)
    (hargs : withCommand args = before ++ name :: rest) :
    Invocation.read args = (readJob name rest).map fun (own, job) =>
      { plain := common.has "no-color" || own.has "no-color"
        verbosity := if own.has "verbose" then own.count "verbose" else common.count "verbose"
        job } := by
  have hsettings : ∀ a ∈ before, isSetting a := fun a ha => isSetting_of_isCommon (hall a ha)
  have hdashes : "--" ∉ before := fun h => absurd (hall _ h) (by decide)
  unfold Invocation.read
  rw [hargs, List.span_eq_takeWhile_dropWhile, List.takeWhile_append_of_pos hsettings,
    List.dropWhile_append_of_pos hsettings, List.takeWhile_cons_of_neg hname,
    List.dropWhile_cons_of_neg hname, List.append_nil]
  simp only [List.contains_eq_mem, hdashes, decide_false, Bool.false_eq_true, if_false, hcommon]
  rfl

theorem readJob_render (args : List String) :
    readJob "render" args = (renderSignature.read args).bind fun g =>
      (RenderOptions.ofGiven g).map fun o => (g, .render o) := by
  rw [readJob]
  rfl

/-- With the name, all arguments are those of `render`. -/
theorem read_render (h : Invocation.read ("render" :: args) = .ok invocation) :
    ∃ g o, renderSignature.read args = .ok g ∧ RenderOptions.ofGiven g = .ok o ∧
      invocation = ⟨g.has "no-color", g.count "verbose", .render o⟩ := by
  have hnone : ∀ a ∈ ([] : List String), isCommon a := nofun
  rw [read_eq_of_common hnone rfl (by decide) rfl, readJob_render] at h
  rcases hg : renderSignature.read args with e | g <;> rw [hg] at h
  · cases h
  rcases ho : RenderOptions.ofGiven g with e | o <;> simp only [Except.bind, ho] at h <;> cases h
  refine ⟨g, o, rfl, ho, ?_⟩
  simp only [Given.ite_has, Invocation.mk.injEq, and_true]
  refine ⟨Bool.false_or _, ?_⟩
  split_ifs with hcount
  · exact hcount.symm
  · rfl

/-- The template is no common argument, so there is a first one that is not common. -/
theorem exists_first_not_common {o : RenderOptions} (h : renderSignature.read args = .ok g)
    (ho : RenderOptions.ofGiven g = .ok o) :
    ∃ before text rest, args = before ++ text :: rest ∧ (∀ a ∈ before, isCommon a) ∧
      ¬ isCommon text := by
  have hsplit := List.takeWhile_append_dropWhile (p := isCommon) (l := args)
  have hall : ∀ a ∈ args.takeWhile isCommon, isCommon a := fun a ha => List.mem_takeWhile_imp ha
  rcases hrest : args.dropWhile isCommon with _ | ⟨text, rest⟩
  · rw [hrest] at hsplit
    rw [← hsplit] at h
    obtain ⟨common, hcommon, -, hread⟩ := read_common hall h
    obtain rfl := Except.ok.inj hread
    rw [RenderOptions.ofGiven, operand, hcommon.operands] at ho
    cases ho
  · rw [hrest] at hsplit
    refine ⟨_, text, rest, hsplit.symm, hall, ?_⟩
    have hhead := List.head?_dropWhile_not isCommon args
    simpa [hrest] using hhead

theorem hasDash_of_isCommon (hall : ∀ a ∈ before, isCommon a) : ∀ a ∈ before, hasDash a :=
  fun a ha => hasDash_of_isSetting (isSetting_of_isCommon (hall a ha))

theorem front_of_no_dash (hall : ∀ a ∈ before, isCommon a) (htext : ¬ hasDash text) :
    front (before ++ text :: rest) = before := by
  rw [front, List.takeWhile_append_of_pos (hasDash_of_isCommon hall),
    List.takeWhile_cons_of_neg htext, List.append_nil]

theorem mem_front_of_dash (hall : ∀ a ∈ before, isCommon a) (htext : hasDash text) :
    text ∈ front (before ++ text :: rest) := by
  rw [front, List.takeWhile_append_of_pos (hasDash_of_isCommon hall),
    List.takeWhile_cons_of_pos htext]
  simp

/-- The name is put behind the common arguments, so it is the only one that is read differently. -/
theorem read_left_out {common g : Given} {o : RenderOptions} (hall : ∀ a ∈ before, isCommon a)
    (hcommon : common.Common (requests before)) (hbefore : commonSignature.read before = .ok common)
    (hrest : renderSignature.readFrom common none (text :: rest) = .ok g)
    (ho : RenderOptions.ofGiven g = .ok o) (htext : ¬ hasDash text) (hname : text ∉ names) :
    ∃ behind, g.count "verbose" = requests before + behind ∧
      Invocation.read (before ++ text :: rest) =
        .ok ⟨g.has "no-color", if behind = 0 then requests before else behind, .render o⟩ := by
  rw [← Given.append_nothing common] at hrest
  obtain ⟨own, hown, rfl⟩ := readFrom_append hrest
  have hargs : withCommand (before ++ text :: rest) = before ++ "render" :: text :: rest := by
    rw [withCommand_append (hasDash_of_isCommon hall), withCommand, if_neg htext, if_neg]
    simpa using hname
  rw [hcommon.ofGiven_append] at ho
  refine ⟨own.count "verbose", by rw [Given.count_append, hcommon.count], ?_⟩
  rw [read_eq_of_common hall hbefore (by decide) hargs, readJob_render]
  unfold Signature.read
  simp only [hown, Except.bind, ho, Except.map, Given.has_append, Given.ite_has, hcommon.count]

/-- An argument with a dash that is not common stays before the name, and is refused there. -/
theorem read_refused (hall : ∀ a ∈ before, isCommon a) (htext : ¬ isCommon text)
    (hdash : hasDash text) (h : renderSignature.read (before ++ text :: rest) = .ok g) :
    ∃ e, Invocation.read (before ++ text :: rest) = .error (.usage e) := by
  have hargs : withCommand (before ++ text :: rest) = before ++ text :: withCommand rest := by
    rw [withCommand_append (hasDash_of_isCommon hall), withCommand, if_pos hdash]
  have hdashes : "--" ∉ before := fun hmem => absurd (hall _ hmem) (by decide)
  have hbefore : ∀ a ∈ before, decide (a ≠ "--") := fun a ha =>
    decide_eq_true fun h => hdashes (h ▸ ha)
  obtain ⟨common, -, hcommon, -⟩ := read_common hall h
  by_cases hsetting : isSetting text
  · have hsettings : (withCommand (before ++ text :: rest)).takeWhile isSetting =
        before ++ text :: (withCommand rest).takeWhile isSetting := by
      rw [hargs, List.takeWhile_append_of_pos fun a ha => isSetting_of_isCommon (hall a ha),
        List.takeWhile_cons_of_pos hsetting]
    by_cases hends : text = "--"
    · subst hends
      rw [read_of_mem_dashes hsettings (by simp), List.takeWhile_append_of_pos hbefore,
        List.takeWhile_cons_of_neg (by simp), List.append_nil, hcommon]
      exact ⟨_, rfl⟩
    · have hrefused := readFrom_refused hall hsetting hends htext h
      by_cases hmem : "--" ∈ before ++ text :: (withCommand rest).takeWhile isSetting
      · rw [read_of_mem_dashes hsettings hmem, List.takeWhile_append_of_pos hbefore,
          List.takeWhile_cons_of_pos (by simpa using hends)]
        obtain ⟨e, he⟩ := hrefused _
        exact ⟨e, by rw [Signature.read, he]; rfl⟩
      · obtain ⟨e, he⟩ := hrefused _
        exact ⟨e, read_of_error hsettings hmem he⟩
  · obtain rfl := eq_dash hdash hsetting
    rw [read_eq_of_common hall hcommon hsetting hargs]
    exact ⟨_, rfl⟩

/-! ### Runs without the name -/

theorem ofRequests_eq_iff (m n : Nat) (filter : Option String) :
    Log.Filter.ofRequests m filter = .ofRequests n filter ↔
      (filter.bind Log.Filter.ofText?).isSome ∨ min m 2 = min n 2 := by
  unfold Log.Filter.ofRequests
  rcases filter.bind Log.Filter.ofText? with _ | f
  · simp only [Option.isSome_none, Bool.false_eq_true, false_or]
    split_ifs <;> simp [Log.Filter.upTo, Level.rank] <;> omega
  · simp

theorem run_code_lt (o : RenderOptions) (disk : Disk) : (o.run disk).code < 2 := by
  have hdeliver (out : Chain) : (o.deliver disk out).code < 2 := by
    unfold RenderOptions.deliver
    split
    · simp
    · split <;> simp [Outcome.failure]
  unfold RenderOptions.run
  split
  · simp [Outcome.failure]
  · simp only [Outcome.after]
    split
    · exact hdeliver _
    · simp [Outcome.failure]

/-- Without the command's name, a template is rendered just as with it where the arguments before
the first one without a dash are common, but for the requests for more of the log: a single one
behind the template makes those before it count for nothing. Where another argument stands before
it, the command line is refused. -/
theorem run_without_name (hread : Invocation.read ("render" :: args) = .ok invocation)
    (hnames : ∀ a ∈ args, a ∉ names) (filter : Option String) (disk : Disk) :
    let before := front args
    let without := run args filter disk
    let named := run ("render" :: args) filter disk
    (without = named ↔ (∀ a ∈ before, isCommon a) ∧
      ((filter.bind Log.Filter.ofText?).isSome ∨ requests before = 0 ∨
        invocation.verbosity ≠ requests before + 1)) ∧
    ((∀ a ∈ before, isCommon a) → without.outcome = named.outcome) ∧
    ((¬ ∀ a ∈ before, isCommon a) →
      named.outcome.code < 2 ∧ ∃ e, without.outcome = (Stop.usage e).outcome disk) := by
  obtain ⟨g, o, hg, ho, rfl⟩ := read_render hread
  obtain ⟨before, text, rest, rfl, hall, htext⟩ := exists_first_not_common hg ho
  simp only
  -- the first argument that is not common stays before the name, or is taken for the template
  by_cases hdash : hasDash text
  · obtain ⟨e, he⟩ := read_refused hall htext hdash hg
    have hnot : ¬ ∀ a ∈ front (before ++ text :: rest), isCommon a := fun h =>
      htext (h text (mem_front_of_dash hall hdash))
    have hcode := run_code_lt o disk
    unfold run
    rw [he, hread]
    refine ⟨iff_of_false (fun heq => ?_) fun h => hnot h.1, fun h => absurd h hnot,
      fun _ => ⟨hcode, e, rfl⟩⟩
    have hsame : 2 = (o.run disk).code := congrArg (·.outcome.code) heq
    omega
  · obtain ⟨common, hcommon, hbefore, hrest⟩ := read_common hall hg
    obtain ⟨behind, hcount, hwithout⟩ :=
      read_left_out hall hcommon hbefore hrest ho hdash (hnames text (by simp))
    rw [front_of_no_dash hall hdash]
    unfold run
    rw [hwithout, hread]
    refine ⟨?_, fun _ => rfl, fun h => absurd hall h⟩
    have hsame : min (if behind = 0 then requests before else behind) 2 =
          min (requests before + behind) 2 ↔
        requests before = 0 ∨ requests before + behind ≠ requests before + 1 := by
      split_ifs <;> omega
    simp only [Report.mk.injEq, and_true, ofRequests_eq_iff, hcount, hsame]
    exact (and_iff_right hall).symm

/-- Lines with a request for more before the template, with one on both sides of it, and with an
argument before it that not every command takes. -/
theorem run_without_name_log :
    let disk : Disk :=
      ⟨.folder [(.ofString "page", .file (.ofString "<TMPL_VAR name=\"x\">"))], []⟩
    run ["-v", "page"] none disk = run ["render", "-v", "page"] none disk ∧
      run ["-v", "page", "-v"] none disk ≠ run ["render", "-v", "page", "-v"] none disk ∧
      (run ["--var", "x=1", "page"] none disk).outcome.code = 2 := by
  intro disk
  let o : RenderOptions :=
    { template := .ofString "page", data := [], assignments := [], content := none
      contentName := "CONTENT", includeDir := none, maxDepth := 64, output := none }
  have hbefore : Invocation.read ["render", "-v", "page"] = .ok ⟨false, 1, .render o⟩ := by
    decide +kernel
  have hboth : Invocation.read ["render", "-v", "page", "-v"] = .ok ⟨false, 2, .render o⟩ := by
    decide +kernel
  have hvar : Invocation.read ["render", "--var", "x=1", "page"] =
      .ok ⟨false, 0, .render { o with assignments := ["x=1"] }⟩ := by
    decide +kernel
  refine ⟨(run_without_name hbefore (by decide) none disk).1.mpr (by decide),
    fun h => absurd ((run_without_name hboth (by decide) none disk).1.mp h) (by decide), ?_⟩
  obtain ⟨-, e, he⟩ := (run_without_name hvar (by decide) none disk).2.2 (by decide)
  rw [he]
  rfl

/-- The value of an argument is taken for the template where it is the first text without a dash. -/
theorem value_taken_for_template :
    ¬ ∀ (args : List String) (invocation : Invocation) (filter : Option String) (disk : Disk),
      (∀ a ∈ args, a ∉ names) → Invocation.read ("render" :: args) = .ok invocation →
        (run args filter disk).outcome.code =
          (run ("render" :: args) filter disk).outcome.code := by
  intro h
  have hread : Invocation.read ["render", "--var", "x=1", "page"] = .ok _ := rfl
  have hcode := h ["--var", "x=1", "page"] _ none ⟨.folder [], []⟩ (by decide) hread
  exact absurd hcode (by decide)

end Stencil.Command
