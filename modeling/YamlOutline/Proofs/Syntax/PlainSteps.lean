import YamlOutline.Proofs.Syntax.Places
import YamlOutline.Syntax.Plain

/-! Plain scalars, character by character: which characters go on with a scalar, and how far it reaches. -/

namespace YamlOutline.Syntax
variable {c : Char} {inFlow : Bool}

private theorem isPlain_eq_false_of_gap (h : (isNull c || isWhite c || isBreak c) = true) :
    isPlain inFlow c = false := by
  rw [isPlain, isVisible_eq_false_of_gap h, Bool.false_and]

namespace Plain
variable {floor floor' column passed kept : Nat} {folding afterPlain : Bool} {cs r r' : List Char}

/-- How a plain scalar has come as far as here: whether a row has just ended, whether the last character was
neither a blank nor a line break, and the column. -/
structure At where
  folding : Bool
  afterPlain : Bool
  column : Nat

/-- How far the scalar reaches. -/
def At.reach (s : At) (inFlow : Bool) (floor : Nat) (cs : List Char) (passed kept : Nat) : Nat :=
  extend inFlow floor cs s.folding s.afterPlain s.column passed kept

/-- Whether a row with `c` behind its blanks is no part of the scalar. -/
def endsRows (floor : Nat) (c : Char) (r : List Char) (column : Nat) : Bool :=
  isNull c || column < floor || column == 0 && atDocumentMarker (c :: r)

/-- Whether `c` is text of a scalar. -/
def isText (inFlow : Bool) (c : Char) (r : List Char) (afterPlain : Bool) : Bool :=
  if c == ':' then isHead inFlow r else !(c == '#' && !afterPlain) && isPlain inFlow c

/-- The scalar goes on behind `c`. -/
inductive Step (inFlow : Bool) (floor : Nat) (c : Char) (r : List Char) : At → At → Prop where
  | fold {s : At} (row : isBreak c = true) : Step inFlow floor c r s ⟨true, false, 0⟩
  | blank {folding afterPlain : Bool} {column : Nat} (white : isWhite c = true) :
      Step inFlow floor c r ⟨folding, afterPlain, column⟩ ⟨folding, false, column + 1⟩
  | text {folding afterPlain : Bool} {column : Nat} (row : folding = true → endsRows floor c r column = false)
      (text : isText inFlow c r afterPlain = true) :
      Step inFlow floor c r ⟨folding, afterPlain, column⟩ ⟨false, true, column + 1⟩

variable {s t : At}

theorem gap_of_isText (h : isText inFlow c r afterPlain = true) : isBreak c = false ∧ isWhite c = false := by
  by_cases hcolon : c = ':'
  · rw [hcolon]
    exact ⟨rfl, rfl⟩
  · have hgap : ¬(isNull c || isWhite c || isBreak c) = true := fun hgap => by
      simp [isText, hcolon, isPlain_eq_false_of_gap hgap] at h
    simp only [Bool.or_eq_true, not_or, Bool.not_eq_true] at hgap
    exact ⟨hgap.2, hgap.1.2⟩

/-- Readings may differ in the text that goes on with the scalar. -/
theorem Step.imp {inFlow' : Bool} (h : Step inFlow floor c r s t)
    (htext : isText inFlow c r s.afterPlain = true → isText inFlow' c r' s.afterPlain = true)
    (hrow : s.folding = true → isText inFlow c r s.afterPlain = true → endsRows floor c r s.column = false →
      endsRows floor' c r' s.column = false) : Step inFlow' floor' c r' s t := by
  cases h with
  | fold row => exact .fold row
  | blank white => exact .blank white
  | text row text => exact .text (fun hfolding => hrow hfolding text (row hfolding)) (htext text)

private theorem endsRows_of_floor_le (hle : floor' ≤ floor)
    (h : endsRows floor c r column = false) :
    endsRows floor' c r column = false := by
  simp only [endsRows, Bool.or_eq_false_iff, decide_eq_false_iff_not, Nat.not_lt] at h ⊢
  exact ⟨⟨h.1.1, hle.trans h.1.2⟩, h.2⟩

theorem Step.of_floor_le (hle : floor' ≤ floor) (h : Step inFlow floor c r s t) : Step inFlow floor' c r s t :=
  h.imp id fun _ _ => endsRows_of_floor_le hle

private theorem extend_of_row (row : isBreak c = false) (white : isWhite c = false) :
    extend inFlow floor (c :: r) folding afterPlain column passed kept =
      if (!folding || !endsRows floor c r column) && isText inFlow c r afterPlain then
        extend inFlow floor r false true (column + 1) (passed + 1) (passed + 1)
      else kept := by
  rw [extend, row, white, isText, ← endsRows]
  cases folding <;> cases endsRows floor c r column <;> cases c == ':' <;> cases isHead inFlow r <;>
    cases c == '#' && !afterPlain <;> cases isPlain inFlow c <;> rfl

theorem At.reach_of_step (h : Step inFlow floor c r s t) (passed kept : Nat) :
    s.reach inFlow floor (c :: r) passed kept =
      t.reach inFlow floor r (passed + 1) (if t.afterPlain then passed + 1 else kept) := by
  cases h with
  | fold row => exact if_pos row
  | @blank folding afterPlain column white =>
    obtain rfl | rfl : c = ' ' ∨ c = '\t' := by simpa [isWhite] using white
    · cases folding <;> rfl
    · cases folding <;> rfl
  | @text folding afterPlain column row text =>
    have hrow : (!folding || !endsRows floor c r column) = true := by
      cases folding with
      | false => rfl
      | true => rw [row rfl]; rfl
    exact (extend_of_row (gap_of_isText text).1 (gap_of_isText text).2).trans (if_pos (by rw [hrow, text]; rfl))

theorem At.reach_of_stop (h : ∀ t, ¬Step inFlow floor c r s t) (passed kept : Nat) :
    s.reach inFlow floor (c :: r) passed kept = kept := by
  have row : isBreak c = false := eq_false_of_ne_true fun row => h _ (.fold row)
  have white : isWhite c = false := eq_false_of_ne_true fun white => h _ (.blank white)
  refine (extend_of_row row white).trans (if_neg fun hmore => ?_)
  rw [Bool.and_eq_true] at hmore
  refine h _ (.text (fun hfolding => ?_) hmore.2)
  simpa [hfolding] using hmore.1

/-- What is kept is what was, or more than has been passed. -/
theorem At.reach_eq_or_lt (s : At) (cs : List Char) (passed kept : Nat) :
    s.reach inFlow floor cs passed kept = kept ∨ passed < s.reach inFlow floor cs passed kept := by
  induction cs generalizing s passed kept with
  | nil => exact .inl rfl
  | cons c r ih =>
    by_cases h : ∃ t, Step inFlow floor c r s t
    · obtain ⟨t, h⟩ := h
      rw [reach_of_step h]
      cases t.afterPlain with
      | false => exact (ih t (passed + 1) kept).imp_right Nat.lt_of_succ_lt
      | true =>
        refine .inr ?_
        obtain he | hlt := ih t (passed + 1) (passed + 1)
        · rw [if_pos rfl, he]
          exact Nat.lt_succ_self passed
        · exact Nat.lt_of_succ_lt hlt
    · exact .inl (reach_of_stop (not_exists.mp h) passed kept)

theorem At.kept_le_reach (s : At) (cs : List Char) (h : kept ≤ passed) :
    kept ≤ s.reach inFlow floor cs passed kept := by
  obtain he | hlt := s.reach_eq_or_lt cs passed kept
  · exact he.ge
  · exact h.trans hlt.le

theorem length_ne_zero (inFlow : Bool) (floor column : Nat) (cs : List Char) : length inFlow floor column cs ≠ 0 :=
  Nat.ne_of_gt (At.kept_le_reach ⟨false, true, column + 1⟩ (cs.drop 1) (Nat.le_refl 1))

end Plain

end YamlOutline.Syntax
