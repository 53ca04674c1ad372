import Mathlib.Tactic.SplitIfs
import YamlOutline.Proofs.Syntax.Properties

/-! Scalars under less indentation. A scalar of several rows is read in the same way where its rows
need not be indented as far, unless the row behind it is one that only the indentation keeps out. -/

namespace YamlOutline.Syntax
variable {floor floor' n : Nat} {cs : List Char}

namespace Quoted

private theorem isIndented_of_floor_le {mode : Mode} (hle : floor' ≤ floor)
    (h : isIndented floor mode = true) :
    isIndented floor' mode = true := by
  cases mode with
  | between fresh leading tabbed =>
    simp only [isIndented, Bool.or_eq_true, decide_eq_true_eq] at h ⊢
    exact h.imp_right hle.trans
  | _ => rfl

private theorem Run.of_floor_le {style : Style} {mode : Mode} {rowStart : Bool}
    (hle : floor' ≤ floor)
    (h : Run style floor cs mode rowStart n) : Run style floor' cs mode rowStart n := by
  have opens {c : Char} {mode : Mode} {rowStart first : Bool} (h : Opens floor c rowStart mode first) :
      Opens floor' c rowStart mode first := by
    cases h with
    | run row => exact .run row
    | between row space tab indented => exact .between row space tab (isIndented_of_floor_le hle indented)
  induction h with
  | quote hopens ends => exact .quote (opens hopens) ends
  | step step _ ih => exact .step (step.imp fun hopens more begins => .piece (opens hopens) more begins) ih

theorem length_of_floor_le {style : Style} (hle : floor' ≤ floor) (h : length style floor cs = .ok n) :
    length style floor' cs = .ok n := by
  obtain ⟨m, rfl, hrun⟩ := length_eq_ok.mp h
  exact length_eq_ok.mpr ⟨m, rfl, hrun.of_floor_le hle⟩

end Quoted

/-! ### Plain scalars -/

/-- Blanks with a line break among them, the last row of which is `column` characters wide. -/
def Folds (column : Nat) (blanks : List Char) : Prop :=
  ∃ before b after, blanks = before ++ b :: after ∧ (∀ c ∈ before, (isWhite c || isBreak c) = true) ∧
    isBreak b = true ∧ (∀ c ∈ after, isWhite c = true) ∧ after.length = column

/-- What follows begins, in a row that is indented less than `floor`, with a character that goes on
with a plain scalar. -/
def Outdented (inFlow : Bool) (floor : Nat) (cs : List Char) : Prop :=
  ∃ column blanks c r, cs = blanks ++ c :: r ∧ Folds column blanks ∧ column < floor ∧ isNull c = false ∧
    c ≠ '#' ∧
    isPlain inFlow c = true ∧ (c = ':' → Plain.isHead inFlow r = true)

namespace Plain

/-- The blanks since the last character that is kept. -/
structure Gap (blanks : List Char) (s : At) : Prop where
  blank : ∀ b ∈ blanks, (isWhite b || isBreak b) = true
  folds : s.folding = true → s.afterPlain = false ∧ Folds s.column blanks

variable {inFlow : Bool} {c : Char} {r gap : List Char} {s t : At}

/-- A blank makes the gap longer. -/
private theorem Gap.snoc (h : Gap gap s) (step : Step inFlow floor c r s t)
    (ht : t.afterPlain = false) :
    Gap (gap ++ [c]) t := by
  have blank (hc : (isWhite c || isBreak c) = true) : ∀ b ∈ gap ++ [c], (isWhite b || isBreak b) = true := by
    simp only [List.mem_append, List.mem_singleton]
    rintro b (hb | rfl)
    · exact h.blank b hb
    · exact hc
  cases step with
  | fold row => exact ⟨blank (by simp [row]), fun _ => ⟨rfl, gap, c, [], rfl, h.blank, row, nofun, rfl⟩⟩
  | blank white =>
    refine ⟨blank (by simp [white]), fun hfolding => ⟨rfl, ?_⟩⟩
    obtain ⟨-, before, b, after, rfl, hbefore, hb, hafter, hcolumn⟩ := h.folds hfolding
    refine ⟨before, b, after ++ [c], by simp, hbefore, hb, ?_, by simpa using hcolumn⟩
    simp only [List.mem_append, List.mem_singleton]
    rintro d (hd | rfl)
    · exact hafter d hd
    · exact white
  | text => cases ht

/-- Only the larger indentation keeps the row out. -/
private theorem Gap.outdented (h : Gap gap s) (hstop : ∀ t, ¬Step inFlow floor c r s t)
    (step : Step inFlow floor' c r s t) :
    Outdented inFlow floor (gap ++ c :: r) := by
  cases step with
  | fold row => exact absurd (.fold row) (hstop _)
  | blank white => exact absurd (.blank white) (hstop _)
  | @text folding afterPlain column row text =>
    have hout : folding = true ∧ endsRows floor c r column = true := by
      by_contra hin
      exact hstop _ (.text (fun hfolding => eq_false_of_ne_true fun hends => hin ⟨hfolding, hends⟩) text)
    have hends' := row hout.1
    obtain ⟨hafter, hfolds⟩ := h.folds hout.1
    simp only [endsRows, Bool.or_eq_true, Bool.or_eq_false_iff, decide_eq_true_eq] at hout hends'
    obtain ⟨⟨hnull, -⟩, hmarker⟩ := hends'
    have hlt : column < floor := by simpa [hnull, hmarker] using hout.2
    have hafter : afterPlain = false := hafter
    rw [hafter, isText] at text
    refine ⟨column, gap, c, r, rfl, hfolds, hlt, hnull, ?_, ?_, ?_⟩
    · rintro rfl
      cases text
    · split at text
      · obtain rfl := beq_iff_eq.mp ‹_›
        cases inFlow <;> rfl
      · exact (Bool.and_eq_true_iff.mp text).2
    · rintro rfl
      exact text

private theorem At.reach_of_floor_le {passed kept : Nat} (hle : floor' ≤ floor) (hgap : Gap gap s)
    (hp : kept + gap.length = passed) :
    s.reach inFlow floor' cs passed kept = s.reach inFlow floor cs passed kept ∨
      Outdented inFlow floor ((gap ++ cs).drop (s.reach inFlow floor cs passed kept - kept)) := by
  induction cs generalizing s passed kept gap with
  | nil => exact .inl rfl
  | cons c r ih =>
    by_cases hstep : ∃ t, Step inFlow floor c r s t
    · obtain ⟨t, hstep⟩ := hstep
      rw [reach_of_step hstep, reach_of_step (hstep.of_floor_le hle)]
      cases ht : t.afterPlain with
      | false =>
        have hlen : kept + (gap ++ [c]).length = passed + 1 := by
          rw [List.length_append, List.length_singleton]
          omega
        have h := ih (hgap.snoc hstep ht) hlen
        rwa [List.append_assoc, List.singleton_append] at h
      | true =>
        -- any other character ends the gap
        have hnone : Gap [] t := by
          cases hstep with
          | fold | blank => cases ht
          | text => exact ⟨nofun, nofun⟩
        have h := ih hnone (show passed + 1 + ([] : List Char).length = passed + 1 from rfl)
        have hkept : passed + 1 ≤ t.reach inFlow floor r (passed + 1) (passed + 1) :=
          t.kept_le_reach r (Nat.le_refl _)
        rw [if_pos rfl]
        generalize t.reach inFlow floor r (passed + 1) (passed + 1) = n at h hkept ⊢
        obtain ⟨k, rfl⟩ := Nat.exists_eq_add_of_le hkept
        have hdrop : (gap ++ c :: r).drop (passed + 1 + k - kept) = r.drop k := by
          rw [show passed + 1 + k - kept = gap.length + (k + 1) by omega, List.drop_append,
            List.drop_of_length_le (by omega), Nat.add_sub_cancel_left]
          rfl
        rw [hdrop]
        rwa [List.nil_append, Nat.add_sub_cancel_left] at h
    · have hstop := not_exists.mp hstep
      rw [reach_of_stop hstop]
      by_cases hstep' : ∃ t, Step inFlow floor' c r s t
      · obtain ⟨t, hstep'⟩ := hstep'
        rw [Nat.sub_self, List.drop_zero]
        exact .inr (hgap.outdented hstop hstep')
      · exact .inl (reach_of_stop (not_exists.mp hstep') passed kept)

/-- A smaller indentation makes a difference only where a row that is indented less goes on with the
scalar. -/
theorem length_of_floor_le (inFlow : Bool) (hle : floor' ≤ floor) (column : Nat) (cs : List Char) :
    length inFlow floor' column cs = length inFlow floor column cs ∨
      Outdented inFlow floor (cs.drop (length inFlow floor column cs)) := by
  have hlength := length_ne_zero inFlow floor column cs
  have hgap : Gap [] ⟨false, true, column + 1⟩ := ⟨nofun, nofun⟩
  have h := @At.reach_of_floor_le floor floor' (cs.drop 1) inFlow [] _ 1 1 hle hgap rfl
  rw [List.nil_append, List.drop_drop] at h
  change length inFlow floor' column cs = length inFlow floor column cs ∨
    Outdented inFlow floor (cs.drop (1 + (length inFlow floor column cs - 1))) at h
  rwa [Nat.add_sub_cancel' (by omega)] at h

end Plain

end YamlOutline.Syntax
