import Mathlib.Data.List.Basic
import Stencil.Command.Options

/-!
# Reading arguments from left to right

Arguments are read from left to right, and what is given so far has a say only in whether a setting
or an operand may still be given. So the same arguments can be read with less given before them, and
they add the same (`readFrom_append`).
-/

namespace Stencil.Command

namespace Given

instance : Append Given := ⟨fun g h => ⟨g.settings ++ h.settings, g.operands ++ h.operands⟩⟩

variable {g h r : Given} {s : Setting} {long value : String}

theorem append_def (g h : Given) : g ++ h = ⟨g.settings ++ h.settings, g.operands ++ h.operands⟩ :=
  rfl

theorem append_assoc (g h k : Given) : g ++ h ++ k = g ++ (h ++ k) := by
  simp [append_def]

theorem append_nothing (g : Given) : g ++ nothing = g := by
  simp [append_def, nothing]

theorem nothing_append (g : Given) : nothing ++ g = g := by
  simp [append_def, nothing]

theorem values_append (g h : Given) (long : String) :
    (g ++ h).values long = g.values long ++ h.values long := by
  simp [values, append_def]

theorem count_append (g h : Given) (long : String) :
    (g ++ h).count long = g.count long + h.count long := by
  simp [count, values_append]

theorem has_append (g h : Given) (long : String) :
    (g ++ h).has long = (g.has long || h.has long) := by
  rw [Bool.eq_iff_iff]
  simp only [has, count_append, Bool.or_eq_true, bne_iff_ne]
  omega

theorem ite_has (g : Given) (long : String) (otherwise : Nat) :
    (if g.has long then g.count long else otherwise) =
      if g.count long = 0 then otherwise else g.count long := by
  by_cases hcount : g.count long = 0 <;> simp [has, hcount]

theorem addSetting_eq (hr : g.addSetting s value = .ok r) : r = g ++ ⟨[(s.long, value)], []⟩ := by
  unfold addSetting at hr
  split_ifs at hr
  cases hr
  simp [append_def]

/-- A setting that may be given may be given where less is given before. -/
theorem addSetting_append (hr : (g ++ h).addSetting s value = .ok r) :
    ∃ r', h.addSetting s value = .ok r' ∧ r = g ++ r' := by
  unfold addSetting at hr ⊢
  split_ifs at hr with hhelp hversion htwice hvalid
  obtain rfl := Except.ok.inj hr
  have hfirst : ¬ ((s.arity = .flag ∨ s.arity = .single) ∧ h.has s.long) := fun ⟨harity, hhas⟩ =>
    htwice ⟨harity, by rw [has_append, hhas, Bool.or_true]⟩
  rw [if_neg hhelp, if_neg hversion, if_neg hfirst, if_neg hvalid]
  exact ⟨_, rfl, by simp [append_def]⟩

end Given

namespace Signature

variable {sig : Signature} {g h r : Given} {waiting : Option Setting}

theorem addOperand_append {text : String} (hr : sig.addOperand (g ++ h) text = .ok r) :
    ∃ r', sig.addOperand h text = .ok r' ∧ r = g ++ r' := by
  unfold addOperand at hr ⊢
  split_ifs at hr with hroom
  obtain rfl := Except.ok.inj hr
  simp only [Given.append_def, List.length_append] at hroom
  rw [if_pos ⟨by omega, hroom.2⟩]
  exact ⟨_, rfl, by simp [Given.append_def]⟩

theorem addOperands_append : ∀ {texts : List String} {h r : Given},
    texts.foldlM sig.addOperand (g ++ h) = .ok r →
      ∃ r', texts.foldlM sig.addOperand h = .ok r' ∧ r = g ++ r'
  | [], h, r, hr => ⟨h, rfl, (Except.ok.inj hr).symm⟩
  | text :: rest, h, r, hr => by
    rw [List.foldlM_cons] at hr ⊢
    rcases htext : sig.addOperand (g ++ h) text with e | k <;> rw [htext] at hr
    · cases hr
    · obtain ⟨k', hk', rfl⟩ := addOperand_append htext
      rw [hk']
      exact addOperands_append hr

/-- A setting whose value is written in the same argument. -/
theorem map_addSetting_append {s : Setting} {value : String}
    (hr : ((g ++ h).addSetting s value).map (·, none) = .ok (r, waiting)) :
    ∃ r', (h.addSetting s value).map (·, none) = .ok (r', waiting) ∧ r = g ++ r' := by
  rcases hadd : (g ++ h).addSetting s value with e | k <;> rw [hadd] at hr <;> cases hr
  obtain ⟨r', hr', rfl⟩ := Given.addSetting_append hadd
  exact ⟨r', by rw [hr']; rfl, rfl⟩

theorem readLetters_append : ∀ {cs : List Char} {h r : Given},
    sig.readLetters (g ++ h) cs = .ok (r, waiting) →
      ∃ r', sig.readLetters h cs = .ok (r', waiting) ∧ r = g ++ r'
  | [], h, r, hr => by
    cases hr
    exact ⟨h, rfl, rfl⟩
  | c :: cs, h, r, hr => by
    rw [readLetters.eq_def] at hr ⊢
    simp only at hr ⊢
    rcases hletter : sig.ofLetter? c with _ | s <;> rw [hletter] at hr
    · cases hr
    · simp only at hr ⊢
      split_ifs at hr ⊢ with hvalue
      · split at hr
        · cases hr
          exact ⟨h, rfl, rfl⟩
        · exact map_addSetting_append hr
        · exact map_addSetting_append hr
      · rcases hadd : (g ++ h).addSetting s "" with e | k <;> rw [hadd] at hr
        · cases hr
        · obtain ⟨k', hk', rfl⟩ := Given.addSetting_append hadd
          rw [hk']
          exact readLetters_append hr

theorem readLong_append {long : List Char} (hr : sig.readLong (g ++ h) long = .ok (r, waiting)) :
    ∃ r', sig.readLong h long = .ok (r', waiting) ∧ r = g ++ r' := by
  unfold readLong at hr ⊢
  simp only at hr ⊢
  split at hr
  · cases hr
  · split at hr
    · exact map_addSetting_append hr
    · cases hr
      exact ⟨h, rfl, rfl⟩
    · cases hr
    · exact map_addSetting_append hr

theorem readArgument_append {text : String}
    (hr : sig.readArgument (g ++ h) text = .ok (r, waiting)) :
    ∃ r', sig.readArgument h text = .ok (r', waiting) ∧ r = g ++ r' := by
  unfold readArgument at hr ⊢
  split at hr
  · exact readLong_append hr
  · exact readLetters_append hr
  · rcases hadd : sig.addOperand (g ++ h) text with e | k <;> rw [hadd] at hr <;> cases hr
    obtain ⟨r', hr', rfl⟩ := addOperand_append hadd
    exact ⟨r', by rw [hr']; rfl, rfl⟩

/-- What can be read with more given before can be read with less, and it adds the same. -/
theorem readFrom_append : ∀ {args : List String} {waiting : Option Setting} {h r : Given},
    sig.readFrom (g ++ h) waiting args = .ok r →
      ∃ r', sig.readFrom h waiting args = .ok r' ∧ r = g ++ r'
  | [], none, h, r, hr => ⟨h, rfl, (Except.ok.inj hr).symm⟩
  | [], some s, h, r, hr => by cases hr
  | text :: rest, none, h, r, hr => by
    rw [readFrom] at hr ⊢
    split_ifs at hr ⊢ with hdashes
    · exact addOperands_append hr
    · rcases htext : sig.readArgument (g ++ h) text with e | ⟨k, waiting⟩ <;> rw [htext] at hr
      · cases hr
      · obtain ⟨k', hk', rfl⟩ := readArgument_append htext
        rw [hk']
        exact readFrom_append hr
  | text :: rest, some s, h, r, hr => by
    rw [readFrom] at hr ⊢
    split_ifs at hr ⊢ with hsetting
    rcases hadd : (g ++ h).addSetting s text with e | k <;> rw [hadd] at hr
    · cases hr
    · obtain ⟨k', hk', rfl⟩ := Given.addSetting_append hadd
      rw [hk']
      exact readFrom_append hr

end Signature

end Stencil.Command
