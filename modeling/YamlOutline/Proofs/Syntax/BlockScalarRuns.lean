import Mathlib.Tactic.SplitIfs
import YamlOutline.Proofs.Syntax.Places
import YamlOutline.Syntax.BlockScalar

/-! The lines of a block scalar, character by character: what each character leads to, and the runs up to
where the lines end. -/

namespace YamlOutline.Syntax.BlockScalar
variable {floor passed kept n k leading column : Nat} {tabbed : Bool} {c : Char} {r cs : List Char} {mode next : Mode}
  {f g first : Option Nat}

/-- Whether a line break may stand here. -/
def Mode.folds : Mode → Bool
  | .taken _ => false
  | _ => true

/-- Whether a row that has `c` behind its blanks is the first behind the lines. -/
def endsLines (floor : Nat) (c : Char) (r : List Char) (tabbed : Bool) (column : Nat) : Bool :=
  isNull c || column < floor && (c == '#' || !tabbed) || column == 0 && atDocumentMarker (c :: r)

/-- How a line goes on that begins with `c`. -/
def lineMode (c : Char) (r : List Char) (column : Nat) : Mode :=
  if column = 0 ∧ likeMarker (c :: r) ≠ 0 then .taken (likeMarker (c :: r) - 1) else .line

/-- What a character is to the lines. -/
inductive Part where
  | gap | text
  /-- Text that begins a line. -/
  | first

def Part.keeps : Part → (passed kept : Nat) → Nat
  | .gap, _, kept => kept
  | _, passed, _ => passed + 1

def Part.begins : Part → (passed : Nat) → (first : Option Nat) → Option Nat
  | .first, passed, first => first.or (some passed)
  | _, _, first => first

/-- The lines end in front of `c`. -/
inductive Stops (floor : Nat) (c : Char) (r : List Char) : Mode → Prop where
  | line (null : isNull c = true) : Stops floor c r .line
  | between {leading column : Nat} {tabbed : Bool} (row : isBreak c = false) (white : isWhite c = false)
      (ends : endsLines floor c r tabbed column = true) : Stops floor c r (.between leading tabbed column)

/-- What `c` is to the lines, and what follows it belongs to. -/
inductive Step (floor : Nat) (c : Char) (r : List Char) : Mode → Mode → Part → Prop where
  | fold {mode : Mode} (folds : mode.folds = true) (row : isBreak c = true) : Step floor c r mode rowStart .gap
  | visible (visible : isVisible c = true) : Step floor c r .line .line .text
  | white (white : isWhite c = true) : Step floor c r .line .line .gap
  | taken {left : Nat} : Step floor c r (.taken left) (if left ≤ 1 then .line else .taken (left - 1)) .text
  | space {leading column : Nat} {tabbed : Bool} (space : c = ' ') :
      Step floor c r (.between leading tabbed column)
        (.between (if tabbed then leading else leading + 1) tabbed (column + 1)) .gap
  | tab {leading column : Nat} {tabbed : Bool} (tab : c = '\t') :
      Step floor c r (.between leading tabbed column) (.between leading true (column + 1)) .gap
  | first {leading column : Nat} {tabbed : Bool} (more : endsLines floor c r tabbed column = false)
      (indented : floor ≤ leading) (visible : isVisible c = true) :
      Step floor c r (.between leading tabbed column) (lineMode c r column) .first

/-- The end of a row. -/
theorem gap_of_rowEnd (h : (isBreak c || isNull c) = true) : isVisible c = false ∧ isWhite c = false := by
  obtain hbreak | hnull := (Bool.or_eq_true _ _).mp h
  · obtain rfl | rfl : c = '\n' ∨ c = '\r' := by simpa [isBreak] using hbreak
    · exact ⟨rfl, rfl⟩
    · exact ⟨rfl, rfl⟩
  · exact ⟨isVisible_eq_false_of_gap (by simp [hnull]), (row_of_isNull hnull).2⟩

private theorem follow_between (row : isBreak c = false) (white : isWhite c = false) :
    follow floor (c :: r) (.between leading tabbed column) passed kept first =
      if endsLines floor c r tabbed column then .ok (kept, first)
      else if floor ≤ leading && isVisible c then
        follow floor r (lineMode c r column) (passed + 1) (passed + 1) (first.or (some passed))
      else .error kept := by
  rw [isWhite, Bool.or_eq_false_iff] at white
  rw [follow, if_neg (ne_true_of_eq_false row), if_neg (ne_true_of_eq_false white.1),
    if_neg (ne_true_of_eq_false white.2), endsLines, lineMode]
  cases isNull c
  · cases decide (column < floor) && (c == '#' || !tabbed)
    · by_cases hcolumn : column = 0
      · cases likeMarker (c :: r) <;> simp [hcolumn]
      · simp [hcolumn]
    · rfl
  · rfl

private theorem follow_stop (h : Stops floor c r mode) :
    follow floor (c :: r) mode passed kept first = .ok (kept, first) := by
  cases h with
  | line null =>
    rw [follow, (row_of_isNull null).1, (row_of_isNull null).2, isVisible_eq_false_of_gap (by simp [null]), null]
    rfl
  | between row white ends => rw [follow_between row white, if_pos ends]

private theorem follow_step {part : Part} (h : Step floor c r mode next part) :
    follow floor (c :: r) mode passed kept first =
    follow floor r next (passed + 1) (part.keeps passed kept) (part.begins passed first) := by
  cases h with
  | fold folds row => cases mode <;> cases folds <;> exact if_pos row
  | visible visible =>
    rw [follow, (row_of_isVisible visible).1, visible]
    rfl
  | white white =>
    obtain rfl | rfl : c = ' ' ∨ c = '\t' := by simpa [isWhite] using white
    · rfl
    · rfl
  | taken => rfl
  | space space =>
    subst space
    rfl
  | tab tab =>
    subst tab
    rfl
  | first more indented visible =>
    rw [follow_between (row_of_isVisible visible).1 (row_of_isVisible visible).2, if_neg (ne_true_of_eq_false more),
      if_pos (by simp [indented, visible])]
    rfl

/-- The lines end in front of a character, or go on behind it. -/
private theorem follow_cases (h : follow floor (c :: r) mode passed kept first = .ok (k, g)) :
    Stops floor c r mode ∨ ∃ next part, Step floor c r mode next part := by
  cases mode with
  | line =>
    rw [follow] at h
    split_ifs at h with hrow hvisible hwhite hnull
    · exact .inr ⟨_, _, .fold rfl hrow⟩
    · exact .inr ⟨_, _, .visible hvisible⟩
    · exact .inr ⟨_, _, .white hwhite⟩
    · exact .inl (.line hnull)
  | taken left => exact .inr ⟨_, _, .taken⟩
  | between leading tabbed column =>
    by_cases hrow : isBreak c = true
    · exact .inr ⟨_, _, .fold rfl hrow⟩
    by_cases hspace : c = ' '
    · exact .inr ⟨_, _, .space hspace⟩
    by_cases htab : c = '\t'
    · exact .inr ⟨_, _, .tab htab⟩
    have hrow := eq_false_of_ne_true hrow
    have hwhite : isWhite c = false := by simp [isWhite, hspace, htab]
    rw [follow_between hrow hwhite] at h
    split_ifs at h with hends htext
    · exact .inl (.between hrow hwhite hends)
    · rw [Bool.and_eq_true, decide_eq_true_eq] at htext
      exact .inr ⟨_, _, .first (eq_false_of_ne_true hends) htext.1 htext.2⟩

/-- How many characters belong to the lines, if `n` of those behind the character do. -/
def Part.length : Part → Nat → Nat
  | .gap, 0 => 0
  | _, n => n + 1

/-- Where the first line begins, if behind the character it does so at `f`. -/
def Part.start : Part → Option Nat → Option Nat
  | .first, _ => some 0
  | _, f => f.map (· + 1)

/-- The next `n` characters belong to the lines, the first of which begins at `f`. -/
inductive Run (floor : Nat) : List Char → Mode → Nat → Option Nat → Prop where
  | nil {mode : Mode} : Run floor [] mode 0 none
  | stop {c : Char} {r : List Char} {mode : Mode} (stops : Stops floor c r mode) : Run floor (c :: r) mode 0 none
  | step {c : Char} {r : List Char} {mode next : Mode} {part : Part} {n : Nat} {f : Option Nat}
      (step : Step floor c r mode next part) (rest : Run floor r next n f) :
      Run floor (c :: r) mode (part.length n) (part.start f)

private theorem Part.keeps_length (part : Part) (passed kept n : Nat) :
    (if n = 0 then part.keeps passed kept else passed + 1 + n) =
      if part.length n = 0 then kept else passed + part.length n := by
  cases n <;> cases part <;> simp [Part.keeps, Part.length] <;> omega

private theorem Part.begins_start (part : Part) (passed : Nat) (first f : Option Nat) :
    (part.begins passed first).or (f.map (passed + 1 + ·)) = first.or ((part.start f).map (passed + ·)) := by
  cases part <;> cases first <;> cases f <;> simp [Part.begins, Part.start] <;> omega

private theorem Run.follow_eq (h : Run floor cs mode n f) (passed kept : Nat) (first : Option Nat) :
    follow floor cs mode passed kept first =
      .ok (if n = 0 then kept else passed + n, first.or (f.map (passed + ·))) := by
  induction h generalizing passed kept first with
  | nil => cases mode <;> simp [follow]
  | stop stops => simp [follow_stop stops]
  | @step c r mode next part n f step rest ih =>
    rw [follow_step step, ih, part.keeps_length, part.begins_start]

private theorem run_of_follow (h : follow floor cs mode passed kept first = .ok (k, g)) :
    ∃ n f, Run floor cs mode n f ∧ k = (if n = 0 then kept else passed + n) ∧ g = first.or (f.map (passed + ·)) := by
  induction cs generalizing mode passed kept first with
  | nil =>
    rw [follow] at h
    cases h
    exact ⟨0, none, .nil, rfl, by simp⟩
  | cons c r ih =>
    obtain hstops | ⟨next, part, hstep⟩ := follow_cases h
    · rw [follow_stop hstops] at h
      cases h
      exact ⟨0, none, .stop hstops, rfl, by simp⟩
    · rw [follow_step hstep] at h
      obtain ⟨n, f, hrun, rfl, rfl⟩ := ih h
      exact ⟨_, _, .step hstep hrun, part.keeps_length _ _ _, part.begins_start _ _ _⟩

/-- The lines are looked for from the end of a row. -/
theorem lines_eq_ok : lines floor cs = .ok (n, f) ↔
    (∀ c, cs.head? = some c → (isBreak c || isNull c) = true) ∧ Run floor cs .line n f := by
  cases cs with
  | nil =>
    constructor
    · intro h
      cases h
      exact ⟨nofun, .nil⟩
    · rintro ⟨-, ⟨⟩⟩
      rfl
  | cons c r =>
    have hfollow : follow floor (c :: r) .line 0 0 none = .ok (n, f) ↔ Run floor (c :: r) .line n f := by
      constructor
      · intro h
        obtain ⟨m, g, hrun, rfl, rfl⟩ := run_of_follow h
        cases m <;> cases g <;> simpa using hrun
      · intro h
        rw [h.follow_eq]
        cases n <;> cases f <;> simp
    rw [lines, ← hfollow]
    by_cases hc : (isBreak c || isNull c) = true
    · rw [if_pos hc]
      exact ⟨fun h => ⟨by rintro _ ⟨⟩; exact hc, h⟩, And.right⟩
    · rw [if_neg hc]
      exact ⟨nofun, fun h => absurd (h.1 c rfl) hc⟩

end YamlOutline.Syntax.BlockScalar
