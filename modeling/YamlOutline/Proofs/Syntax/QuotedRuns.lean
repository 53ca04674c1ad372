import Mathlib.Tactic.SplitIfs
import YamlOutline.Syntax.Quoted

/-! Quoted scalars, character by character: what each character leads to, and the runs that reach the quote
at the end. -/

namespace YamlOutline.Syntax.Quoted
variable {style : Style} {floor floor' n m passed kept : Nat} {c : Char} {r cs : List Char} {mode next : Mode}
  {rowStart first : Bool}

/-- Whether a line break may stand here. -/
def Mode.folds : Mode → Bool
  | .between .. | .run | .escape => true
  | _ => false

/-- The quote at the end or another piece may stand at `c`. The last argument tells whether it begins a row. -/
inductive Opens (floor : Nat) (c : Char) (rowStart : Bool) : Mode → Bool → Prop where
  | run (row : isBreak c = false) : Opens floor c rowStart .run false
  | between {fresh tabbed : Bool} {leading : Nat} (row : isBreak c = false) (space : c ≠ ' ') (tab : c ≠ '\t')
      (indented : isIndented floor (.between fresh leading tabbed) = true) :
      Opens floor c rowStart (.between fresh leading tabbed) rowStart

/-- What follows `c` belongs to, and whether it begins a row, if `c` is not the quote at the end. -/
inductive Step (style : Style) (floor : Nat) (c : Char) (r : List Char) (rowStart : Bool) :
    Mode → Mode → Bool → Prop where
  | fold {mode : Mode} (folds : mode.folds = true) (row : isBreak c = true) :
      Step style floor c r rowStart mode (.between true 0 false) true
  | simple (row : isBreak c = false) (simple : simpleEscapes.contains c = true) :
      Step style floor c r rowStart .escape between false
  | digits (row : isBreak c = false) (simple : simpleEscapes.contains c = false) (digits : hexDigits c ≠ 0) :
      Step style floor c r rowStart .escape (.hex (hexDigits c)) false
  | digit {left : Nat} (digit : isHexDigit c = true) :
      Step style floor c r rowStart (.hex left) (if left ≤ 1 then between else .hex (left - 1)) false
  | taken {left : Nat} :
      Step style floor c r rowStart (.taken left) (if left ≤ 1 then .run else .taken (left - 1)) false
  | doubled : Step style floor c r rowStart .doubled between false
  | space {fresh tabbed : Bool} {leading : Nat} (space : c = ' ') :
      Step style floor c r rowStart (.between fresh leading tabbed)
        (.between fresh (if tabbed then leading else leading + 1) tabbed) false
  | tab {fresh tabbed : Bool} {leading : Nat} (tab : c = '\t') :
      Step style floor c r rowStart (.between fresh leading tabbed) (.between fresh leading true) false
  | piece {mode next : Mode} {first : Bool} (opens : Opens floor c rowStart mode first)
      (more : ends style c r = false) (begins : begin style c r first = some next) :
      Step style floor c r rowStart mode next false

/-- Readings that differ in the pieces that may stand at `c` differ in nothing else. -/
theorem Step.imp {r' : List Char} (h : Step style floor c r rowStart mode next first)
    (hpiece : ∀ {start}, Opens floor c rowStart mode start → ends style c r = false →
      begin style c r start = some next → Step style floor' c r' rowStart mode next false) :
    Step style floor' c r' rowStart mode next first := by
  cases h with
  | fold folds row => exact .fold folds row
  | simple row simple => exact .simple row simple
  | digits row simple digits => exact .digits row simple digits
  | digit digit => exact .digit digit
  | taken => exact .taken
  | doubled => exact .doubled
  | space space => exact .space space
  | tab tab => exact .tab tab
  | piece opens more begins => exact hpiece opens more begins

/-- The quote at the end is the last of the next `n` characters. -/
inductive Run (style : Style) (floor : Nat) : List Char → Mode → Bool → Nat → Prop where
  | quote {c : Char} {r : List Char} {mode : Mode} {rowStart first : Bool} (opens : Opens floor c rowStart mode first)
      (ends : ends style c r = true) : Run style floor (c :: r) mode rowStart 1
  | step {c : Char} {r : List Char} {mode next : Mode} {rowStart first : Bool} {n : Nat}
      (step : Step style floor c r rowStart mode next first) (rest : Run style floor r next first n) :
      Run style floor (c :: r) mode rowStart (n + 1)

theorem Run.pos (h : Run style floor cs mode rowStart n) : 0 < n := by
  cases h <;> exact Nat.succ_pos _

theorem Run.ne_nil (h : Run style floor cs mode rowStart n) : cs ≠ [] := by
  cases h <;> exact List.cons_ne_nil _ _

/-- Whatever was kept so far, a run ends in the same place. -/
private theorem Run.follow_eq (h : Run style floor cs mode rowStart n) (passed kept : Nat) :
    follow style floor cs mode rowStart passed kept = .ok (passed + n) := by
  induction h generalizing passed kept with
  | quote opens ends =>
    cases opens with
    | run row =>
      rw [follow, row, ends]
      rfl
    | between row space tab indented =>
      rw [follow, row, beq_false_of_ne space, beq_false_of_ne tab, indented, ends]
      rfl
  | @step c r mode next rowStart first n step rest ih =>
    have ih (kept : Nat) : follow style floor r next first (passed + 1) kept = .ok (passed + (n + 1)) := by
      rw [ih, Nat.add_assoc, Nat.add_comm 1]
    cases step with
    | fold folds row => cases mode <;> cases folds <;> rw [follow, if_pos row, ih]
    | simple row simple =>
      rw [follow, row, simple]
      exact ih _
    | digits row simple digits =>
      rw [follow, row, simple]
      exact (if_neg digits).trans (ih _)
    | digit digit =>
      rw [follow, if_pos digit]
      split <;> simpa [*] using ih _
    | taken | doubled => rw [follow, ih]
    | space space =>
      subst space
      exact ih kept
    | tab tab =>
      subst tab
      exact ih kept
    | piece opens more begins =>
      cases opens with
      | run row =>
        rw [follow, row, more, begins]
        exact ih _
      | between row space tab indented =>
        rw [follow, row, beq_false_of_ne space, beq_false_of_ne tab, indented, more, begins]
        exact ih _

private theorem run_of_follow (h : follow style floor cs mode rowStart passed kept = .ok m) :
    ∃ n, m = passed + n ∧ Run style floor cs mode rowStart n := by
  induction cs generalizing mode rowStart passed kept with
  | nil => cases h
  | cons c r ih =>
    have onward {next : Mode} {first : Bool} {kept : Nat} (hstep : Step style floor c r rowStart mode next first)
        (h : follow style floor r next first (passed + 1) kept = .ok m) :
        ∃ n, m = passed + n ∧ Run style floor (c :: r) mode rowStart n := by
      obtain ⟨n, rfl, hrun⟩ := ih h
      exact ⟨n + 1, by omega, .step hstep hrun⟩
    cases mode with
    | escape =>
      rw [follow] at h
      split_ifs at h with hrow hsimple hdigits
      · exact onward (.fold rfl hrow) h
      · exact onward (.simple (eq_false_of_ne_true hrow) hsimple) h
      · exact onward (.digits (eq_false_of_ne_true hrow) (eq_false_of_ne_true hsimple) hdigits) h
    | hex left =>
      rw [follow] at h
      split_ifs at h with hdigit hleft
      · exact onward (.digit hdigit) (by rwa [if_pos hleft])
      · exact onward (.digit hdigit) (by rwa [if_neg hleft])
    | taken left => exact onward .taken h
    | doubled => exact onward .doubled h
    | run =>
      rw [follow] at h
      split_ifs at h with hrow hends
      · exact onward (.fold rfl hrow) h
      · cases h
        exact ⟨1, rfl, .quote (.run (eq_false_of_ne_true hrow)) hends⟩
      · split at h
        · cases h
        · exact onward (.piece (.run (eq_false_of_ne_true hrow)) (eq_false_of_ne_true hends) ‹_›) h
    | between fresh leading tabbed =>
      rw [follow] at h
      by_cases hrow : isBreak c = true
      · exact onward (.fold rfl hrow) (by rwa [if_pos hrow] at h)
      by_cases hspace : c = ' '
      · exact onward (.space hspace) (by rwa [if_neg hrow, if_pos (beq_iff_eq.mpr hspace)] at h)
      by_cases htab : c = '\t'
      · exact onward (.tab htab) (by
          rwa [if_neg hrow, if_neg (by simpa using hspace), if_pos (beq_iff_eq.mpr htab)] at h)
      rw [if_neg hrow, if_neg (by simpa using hspace), if_neg (by simpa using htab)] at h
      cases hindented : isIndented floor (.between fresh leading tabbed) with
      | false =>
        rw [hindented] at h
        cases h
      | true =>
        have hopens : Opens floor c rowStart (.between fresh leading tabbed) rowStart :=
          .between (eq_false_of_ne_true hrow) hspace htab hindented
        rw [hindented, if_neg (by decide)] at h
        split_ifs at h with hends
        · cases h
          exact ⟨1, rfl, .quote hopens hends⟩
        · split at h
          · cases h
          · exact onward (.piece hopens (eq_false_of_ne_true hends) ‹_›) h

/-- A scalar is read up to the quote at its end. -/
theorem length_eq_ok : length style floor cs = .ok n ↔
    ∃ m, n = 1 + m ∧ Run style floor (cs.drop 1) between false m := by
  constructor
  · exact run_of_follow
  · rintro ⟨m, rfl, hrun⟩
    exact hrun.follow_eq 1 1

end YamlOutline.Syntax.Quoted
