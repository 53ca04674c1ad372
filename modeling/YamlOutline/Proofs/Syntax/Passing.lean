import YamlOutline.Proofs.Syntax.Places

/-! What is passed between two tokens, character by character: only blanks and comments, and the comments
are leaves in order. -/

namespace YamlOutline.Syntax
open Text (IsBoundary)
variable {cs : List Char} {p : Cursor} {s : Layout}

namespace Layout

/-- A state in a text. What has been passed since the last token are comments, none of them before a
token in the row of the last one, and spaces alone before the first token of a row are as many as its
column says. -/
structure Sound (cs : List Char) (s : Layout) : Prop where
  inText : s.cursor.In cs
  comments : ∀ t ∈ s.comments, ∃ span, t = .leaf .comment span
  aligned : s.fresh = true → s.tabbed = false → s.atEnd = true ∨ s.column = s.leading
  inRow : s.fresh = false → s.atEnd = true ∨ s.comments = []

theorem settle_eq (h : s.comments = []) : s.settle = s := by
  rw [settle, ← h]

theorem Sound.settle (h : s.Sound cs) : s.settle.Sound cs :=
  ⟨h.inText, nofun, h.aligned, fun _ => .inr rfl⟩

/-- A comment that begins at `start` is read as far as `p`. -/
def InComment (cs : List Char) (start : Nat) (p : Cursor) : Prop :=
  ∃ (q : Cursor) (n : Nat), q.In cs ∧ start = q.offset ∧ p = q.drop n ∧
    ∃ r, q.rest.take n = '#' :: r ∧ ∀ c ∈ r, isBreak c = false

private theorem InComment.next {start : Nat} {c : Char} {r : List Char} (h : InComment cs start p)
    (hr : p.rest = c :: r) (hc : isBreak c = false) : InComment cs start p.next := by
  obtain ⟨q, n, hq, rfl, rfl, text, htext, hbreaks⟩ := h
  rw [Cursor.rest_drop] at hr
  have hget : q.rest[n]? = some c := by rw [← List.head?_drop, hr, List.head?_cons]
  refine ⟨q, n + 1, hq, rfl, Cursor.drop_add q n 1, text ++ [c], ?_, ?_⟩
  · rw [List.take_add_one, htext, hget]
    rfl
  · intro d hd
    rcases List.mem_append.mp hd with hd | hd
    · exact hbreaks d hd
    · rwa [List.mem_singleton.mp hd]

private theorem InComment.isComment {start : Nat} (h : InComment cs start p) :
    IsComment cs ⟨start, p.offset⟩ ∧ IsBoundary cs start ∧ start ≤ p.offset := by
  obtain ⟨q, n, hq, rfl, rfl, text, htext, hbreaks⟩ := h
  exact ⟨⟨text, by rw [← htext]; exact hq.slice n, hbreaks⟩, hq.boundary, q.offset_le_drop n⟩

/-- The leaves of comments that are done, up to the start of the one that is open. -/
structure Passed (cs : List Char) (lo : Nat) (p : Cursor) (open? : Option Nat) (done : List Tree) :
    Prop where
  comments : ∀ t ∈ done, ∃ span, t = .leaf .comment span
  laid : Ordered cs lo (open?.getD p.offset) (Tree.leavesList done)
  covers : Covers cs lo (open?.getD p.offset) (Tree.leavesList done)
  opened : ∀ start, open? = some start → InComment cs start p

private theorem Passed.start {lo : Nat} (hlo : lo = p.offset) : Passed cs lo p none [] :=
  ⟨nofun, Nat.le_of_eq hlo, .of_le (Nat.le_of_eq hlo.symm), nofun⟩

private theorem Passed.close {lo : Nat} {open? : Option Nat} {done : List Tree} (hp : p.In cs)
    (h : Passed cs lo p open? done) : Passed cs lo p none (done ++ pass.close open? p) := by
  obtain ⟨hc, hl, hcovers, ho⟩ := h
  cases open? with
  | none =>
    exact ⟨by simpa [pass.close] using hc, by simpa [pass.close] using hl,
      by simpa [pass.close] using hcovers, nofun⟩
  | some start =>
    obtain ⟨hcomment, hb, hle⟩ := (ho start rfl).isComment
    refine ⟨?_, ?_, ?_, nofun⟩
    · intro t ht
      rcases List.mem_append.mp ht with ht | ht
      · exact hc t ht
      · exact ⟨_, List.mem_singleton.mp ht⟩
    · rw [Tree.leavesList_append]
      refine hl.append ?_
      simp only [pass.close, Tree.leavesList_cons, Tree.leaves_leaf, Tree.leavesList_nil]
      exact ⟨Nat.le_refl _, hle, hb, hp.boundary, Nat.le_refl _⟩
    · rw [Tree.leavesList_append]
      exact hcovers.append (Covers.leaf (s := ⟨start, p.offset⟩) fun _ => hcomment)

/-- One character more: white space, or one more of the comment that is open. -/
private theorem Passed.next {lo : Nat} {open? : Option Nat} {done : List Tree} {c : Char}
    {r : List Char}
    (hp : p.In cs) (h : Passed cs lo p open? done) (hr : p.rest = c :: r)
    (hblank : open? = none → Text.isBlank c = true) (hbreak : open?.isSome = true → isBreak c = false) :
    Passed cs lo p.next open? done := by
  obtain ⟨hc, hl, hcovers, ho⟩ := h
  cases open? with
  | none =>
    have hnext : Covers cs p.offset p.next.offset [] := by
      refine hp.covers (n := 1) ?_
      simpa [hr] using hblank rfl
    refine ⟨hc, hl.mono (Nat.le_refl lo) (p.offset_le_drop 1), ?_, nofun⟩
    simpa using hcovers.append hnext
  | some start =>
    refine ⟨hc, hl, hcovers, ?_⟩
    rintro _ ⟨⟩
    exact (ho start rfl).next hr (hbreak rfl)

/-! ### Steps -/

/-- A place between two tokens, and what has been passed since the first of them. -/
structure Passage where
  cursor : Cursor
  fresh : Bool
  gap : Bool
  leading : Nat
  tabbed : Bool
  /-- Where the comment begins that goes on here. -/
  open? : Option Nat
  done : List Tree

namespace Passage
variable {s t : Passage} {u u' : Layout} {c : Char} {r : List Char}

def behind (p : Cursor) : Passage :=
  ⟨p, false, false, 0, false, none, []⟩

def first (p : Cursor) : Passage :=
  ⟨p, true, true, 0, false, none, []⟩

/-- The state if the next token or the end stands here. -/
def out (s : Passage) : Layout :=
  ⟨s.cursor, 0, s.fresh, s.leading, s.tabbed, s.done ++ pass.close s.open? s.cursor⟩

/-- Whether the next token may begin with `c`. -/
def opens (s : Passage) (c : Char) : Bool :=
  !isBreak c && !isNull c && !isWhite c && !(c == '#' && commentAllowed s.fresh s.gap s.cursor)

/-- The character `c` is passed. -/
inductive Step (c : Char) : Passage → Passage → Prop where
  | fold {s : Passage} (row : isBreak c = true) :
      Step c s ⟨s.cursor.next, true, true, 0, false, none, s.done ++ pass.close s.open? s.cursor⟩
  | inside {s : Passage} (row : isBreak c = false) (null : isNull c = false) (opened : s.open?.isSome = true) :
      Step c s { s with cursor := s.cursor.next }
  | space {s : Passage} (space : c = ' ') (closed : s.open? = none) :
      Step c s { s with
        cursor := s.cursor.next, gap := true, leading := if s.tabbed then s.leading else s.leading + 1 }
  | tab {s : Passage} (tab : c = '\t') (closed : s.open? = none) :
      Step c s { s with cursor := s.cursor.next, gap := true, tabbed := true }
  | hash {s : Passage} (hash : c = '#') (allowed : commentAllowed s.fresh s.gap s.cursor = true)
      (closed : s.open? = none) : Step c s { s with cursor := s.cursor.next, open? := some s.cursor.offset }

/-- Nothing more is passed. -/
inductive Halts : Passage → Prop where
  | done {s : Passage} (rest : s.cursor.rest = []) : Halts s
  | null {s : Passage} {c : Char} {r : List Char} (rest : s.cursor.rest = c :: r) (null : isNull c = true) : Halts s
  | token {s : Passage} {c : Char} {r : List Char} (rest : s.cursor.rest = c :: r) (opens : s.opens c = true)
      (closed : s.open? = none) : Halts s

/-- From a place between two tokens one comes to the second one. -/
inductive Passes : Passage → Layout → Prop where
  | halt {s : Passage} (halts : s.Halts) : Passes s s.out
  | step {s t : Passage} {u : Layout} {c : Char} {r : List Char} (rest : s.cursor.rest = c :: r)
      (step : Step c s t) (onward : Passes t u) : Passes s u

theorem Step.cursor (h : Step c s t) : t.cursor = s.cursor.next := by
  cases h <;> rfl

theorem Step.rest (h : Step c s t) (hr : s.cursor.rest = c :: r) : t.cursor.rest = r := by
  rw [h.cursor, Cursor.rest_next, hr, List.tail_cons]

private theorem halts_or_step (s : Passage) :
    s.Halts ∨ ∃ c r t, s.cursor.rest = c :: r ∧ Step c s t := by
  cases hr : s.cursor.rest with
  | nil => exact .inl (.done hr)
  | cons c r =>
    have step {t : Passage} (h : Step c s t) : s.Halts ∨ ∃ d r' t, c :: r = d :: r' ∧ Step d s t :=
      .inr ⟨c, r, t, rfl, h⟩
    cases hrow : isBreak c with
    | true => exact step (.fold hrow)
    | false =>
      cases hnull : isNull c with
      | true => exact .inl (.null hr hnull)
      | false =>
        cases hopen : s.open? with
        | some start => exact step (.inside hrow hnull (by rw [hopen]; rfl))
        | none =>
          by_cases hspace : c = ' '
          · exact step (.space hspace hopen)
          by_cases htab : c = '\t'
          · exact step (.tab htab hopen)
          cases hhash : c == '#' && commentAllowed s.fresh s.gap s.cursor with
          | true =>
            rw [Bool.and_eq_true, beq_iff_eq] at hhash
            exact step (.hash hhash.1 hhash.2 hopen)
          | false => exact .inl (.token hr (by simp [opens, hrow, hnull, isWhite, hspace, htab, hhash]) hopen)

theorem exists_passes (s : Passage) : ∃ u, Passes s u := by
  generalize hr : s.cursor.rest = rest
  induction rest generalizing s with
  | nil => exact ⟨_, .halt (.done hr)⟩
  | cons c r ih =>
    obtain hhalts | ⟨d, r', t, hr', hstep⟩ := s.halts_or_step
    · exact ⟨_, .halt hhalts⟩
    · obtain ⟨rfl, rfl⟩ := List.cons.inj (hr.symm.trans hr')
      obtain ⟨u, hu⟩ := ih t (hstep.rest hr)
      exact ⟨u, .step hr hstep hu⟩

private theorem Passes.eq (h : Passes s u) :
    u = pass s.cursor.rest s.cursor s.fresh s.gap s.leading s.tabbed s.open? s.done := by
  induction h with
  | halt halts =>
    cases halts with
    | done rest =>
      rw [rest]
      rfl
    | null rest null =>
      rw [rest, pass, (row_of_isNull null).1, null]
      rfl
    | token rest opens closed =>
      simp only [Passage.opens, Bool.and_eq_true, Bool.not_eq_true', isWhite, Bool.or_eq_false_iff] at opens
      obtain ⟨⟨⟨row, null⟩, space, tab⟩, hash⟩ := opens
      rw [rest, pass, row, null, closed, space, tab, hash, out, closed]
      exact congrArg _ (List.append_nil _)
  | step rest step _ ih =>
    rw [ih, rest, step.rest rest]
    cases step with
    | fold row => exact (if_pos row).symm
    | inside row null opened =>
      rw [pass, row, null, opened]
      rfl
    | space space closed =>
      rw [space, closed]
      rfl
    | tab tab closed =>
      rw [tab, closed]
      rfl
    | hash hash allowed closed =>
      rw [hash, closed, pass, allowed]
      rfl

private theorem Halts.atEnd_or_closed (h : Halts s) : s.out.atEnd = true ∨ s.open? = none := by
  cases h with
  | done rest => exact .inl (by simp [out, atEnd, Layout.rest, rest])
  | null rest null => exact .inl (by simp [out, atEnd, Layout.rest, rest, null])
  | token _ _ closed => exact .inr closed

/-- A step goes on in the row, or begins one. -/
private theorem Step.row (h : Step c s t) (hr : s.cursor.rest = c :: r) :
    t.cursor.row = s.cursor.row ∧ t.fresh = s.fresh ∨ t.cursor.row = s.cursor.row + 1 ∧ t.fresh = true := by
  have hrow : s.cursor.next.row = if isBreak c then s.cursor.row + 1 else s.cursor.row := by
    rw [Cursor.row_next, hr]
  cases h with
  | fold row => exact .inr ⟨hrow.trans (if_pos row), rfl⟩
  | inside row => exact .inl ⟨hrow.trans (if_neg (ne_true_of_eq_false row)), rfl⟩
  | space space =>
    subst space
    exact .inl ⟨hrow, rfl⟩
  | tab tab =>
    subst tab
    exact .inl ⟨hrow, rfl⟩
  | hash hash =>
    subst hash
    exact .inl ⟨hrow, rfl⟩

namespace Passes

/-- What is left: a state in the text with the comments in order. -/
private theorem passed {lo : Nat} (h : Passes s u) (hp : s.cursor.In cs)
    (hpassed : Passed cs lo s.cursor s.open? s.done) :
    u.cursor.In cs ∧ Passed cs lo u.cursor none u.comments := by
  induction h with
  | halt => exact ⟨hp, hpassed.close hp⟩
  | @step s t u c r rest step _ ih =>
    cases step with
    | fold row => exact ih hp.next ((hpassed.close hp).next hp rest (fun _ => isBlank_of_isBreak row) nofun)
    | inside row _ opened =>
      have hopen (closed : s.open? = none) : Text.isBlank c = true := by
        rw [closed] at opened
        cases opened
      exact ih hp.next (hpassed.next hp rest hopen fun _ => row)
    | space space closed =>
      have hblank : Text.isBlank c = true := by
        rw [space]
        rfl
      exact ih hp.next (hpassed.next hp rest (fun _ => hblank) (by simp [closed]))
    | tab tab closed =>
      have hblank : Text.isBlank c = true := by
        rw [tab]
        rfl
      exact ih hp.next (hpassed.next hp rest (fun _ => hblank) (by simp [closed]))
    | hash hash _ closed =>
      subst hash
      obtain ⟨hcomments, hlaid, hcovers, -⟩ := hpassed
      rw [closed] at hlaid hcovers
      refine ih hp.next ⟨hcomments, hlaid, hcovers, ?_⟩
      rintro _ ⟨⟩
      exact ⟨s.cursor, 1, hp, rfl, rfl, [], by simp [rest], nofun⟩

/-- Before the first token of a row stand as many spaces as its column says. -/
private theorem aligned (h : Passes s u)
    (hs : s.fresh = true → s.tabbed = false → s.open? = none → s.cursor.column = s.leading) :
    u.fresh = true → u.tabbed = false → u.atEnd = true ∨ u.column = u.leading := by
  induction h with
  | halt halts => exact fun hf ht => halts.atEnd_or_closed.imp_right (hs hf ht)
  | @step s t u c r rest step _ ih =>
    have hcolumn : s.cursor.next.column = if isBreak c then 0 else s.cursor.column + 1 := by
      rw [Cursor.column_next, rest]
    refine ih ?_
    cases step with
    | fold row => exact fun _ _ _ => hcolumn.trans (if_pos row)
    | inside _ _ opened =>
      intro _ _ closed
      rw [show s.open? = none from closed] at opened
      cases opened
    | space space closed =>
      intro hf ht _
      subst space
      have ht : s.tabbed = false := ht
      rw [ht]
      exact hcolumn.trans (congrArg (· + 1) (hs hf ht closed))
    | tab => exact fun _ ht => nomatch ht
    | hash => exact fun _ _ closed => nomatch closed

/-- A row that has begun has begun for good. -/
theorem fresh (h : Passes s u) (hs : s.fresh = true) : u.fresh = true := by
  induction h with
  | halt => exact hs
  | step rest step _ ih =>
    obtain ⟨-, hf⟩ | ⟨-, hf⟩ := step.row rest
    · exact ih (hf.trans hs)
    · exact ih hf

/-- Before a token in the same row there is no comment. -/
theorem inRow (h : Passes s u) (hu : u.fresh = false) :
    u.cursor.row = s.cursor.row ∧ (u.atEnd = true ∨ s.open? = none ∧ u.comments = s.done) := by
  induction h with
  | halt halts =>
    refine ⟨rfl, halts.atEnd_or_closed.imp_right fun closed => ⟨closed, ?_⟩⟩
    rw [out, closed]
    exact List.append_nil _
  | step rest step onward ih =>
    obtain ⟨hrow, -⟩ | ⟨-, hf⟩ := step.row rest
    · obtain ⟨hrow', hend⟩ := ih hu
      refine ⟨hrow'.trans hrow, ?_⟩
      cases step with
      | fold => rw [onward.fresh rfl] at hu; cases hu
      | inside | space | tab => exact hend
      | hash => exact hend.imp_right fun h => nomatch h.1
    · rw [onward.fresh hf] at hu
      cases hu

private theorem row_le (h : Passes s u) : s.cursor.row ≤ u.cursor.row ∧
    (s.fresh = false → u.fresh = true → s.cursor.row < u.cursor.row) := by
  induction h with
  | halt => exact ⟨Nat.le_refl _, fun hf h => absurd (hf.symm.trans h) Bool.false_ne_true⟩
  | step rest step _ ih =>
    obtain ⟨hrow, hf⟩ | ⟨hrow, -⟩ := step.row rest
    · rwa [hrow, hf] at ih
    · rw [hrow] at ih
      exact ⟨Nat.le_of_succ_le ih.1, fun _ _ => ih.1⟩

theorem offset_le (h : Passes s u) : s.cursor.offset ≤ u.cursor.offset := by
  induction h with
  | halt => exact Nat.le_refl _
  | @step s t u c r _ step _ ih =>
    rw [step.cursor] at ih
    exact (s.cursor.offset_le_drop 1).trans ih

theorem length_rest_le (h : Passes s u) : u.rest.length ≤ s.cursor.rest.length := by
  induction h with
  | halt => exact Nat.le_refl _
  | step rest step _ ih =>
    rw [step.rest rest] at ih
    rw [rest]
    exact ih.trans (Nat.le_succ _)

end Passes

/-- The place `t` is `s` behind blanks. -/
structure Behind (s : Passage) (blanks : List Char) (t : Passage) : Prop where
  passes : ∀ {u}, Passes t u → Passes s u
  cursor : t.cursor = s.cursor.drop blanks.length
  fresh : t.fresh = s.fresh
  gap : s.gap = true ∨ blanks ≠ [] → t.gap = true
  leading : t.leading ≤ s.leading + blanks.length
  closed : t.open? = none

theorem exists_behind (blanks : List Char) (hs : s.cursor.rest = blanks ++ r) (closed : s.open? = none)
    (hblanks : ∀ b ∈ blanks, isWhite b = true) : ∃ t, s.Behind blanks t := by
  induction blanks generalizing s with
  | nil => exact ⟨s, id, rfl, rfl, fun h => h.resolve_right (by simp), Nat.le_refl _, closed⟩
  | cons b blanks ih =>
    obtain ⟨hb, hblanks⟩ := List.forall_mem_cons.mp hblanks
    have step {t : Passage} (step : Step b s t) (hfresh : t.fresh = s.fresh) (hgap : t.gap = true)
        (hleading : t.leading ≤ s.leading + 1) (hclosed : t.open? = none) : ∃ u, s.Behind (b :: blanks) u := by
      obtain ⟨u, hu⟩ := ih (step.rest hs) hclosed hblanks
      refine ⟨u, fun h => .step hs step (hu.passes h), ?_, hu.fresh.trans hfresh,
        fun _ => hu.gap (.inl hgap), ?_, hu.closed⟩
      · rw [hu.cursor, step.cursor]
        rfl
      · have hle := hu.leading
        rw [List.length_cons]
        omega
    obtain rfl | rfl : b = ' ' ∨ b = '\t' := by simpa [isWhite] using hb
    · exact step (.space rfl closed) rfl rfl (by dsimp only; split <;> omega) closed
    · exact step (.tab rfl closed) rfl rfl (Nat.le_succ _) closed

end Passage

theorem Passage.Passes.after_eq {u : Layout} (h : Passage.Passes (.behind p) u) :
    after p = { u with stop := p.offset } := by
  rw [h.eq]
  rfl

theorem Passage.Passes.ofText_eq {u : Layout} (h : Passage.Passes (.first (.ofText cs)) u) :
    ofText cs = { u with stop := (Cursor.ofText cs).offset } := by
  rw [h.eq]
  rfl

/-- Behind a token one comes to the next one. -/
theorem after_passes (p : Cursor) : ∃ u, Passage.Passes (.behind p) u ∧ after p = { u with stop := p.offset } := by
  obtain ⟨u, hu⟩ := (Passage.behind p).exists_passes
  exact ⟨u, hu, hu.after_eq⟩

private theorem ofText_passes (cs : List Char) : ∃ u, Passage.Passes (.first (.ofText cs)) u ∧
    ofText cs = { u with stop := (Cursor.ofText cs).offset } := by
  obtain ⟨u, hu⟩ := (Passage.first (.ofText cs)).exists_passes
  exact ⟨u, hu, hu.ofText_eq⟩

theorem after_passed (hp : p.In cs) :
    (after p).cursor.In cs ∧ Passed cs p.offset (after p).cursor none (after p).comments := by
  obtain ⟨u, hu, he⟩ := after_passes p
  rw [he]
  exact hu.passed hp (.start rfl)

theorem after_row_le (p : Cursor) : p.row ≤ (after p).cursor.row ∧
    ((after p).fresh = true → p.row < (after p).cursor.row) := by
  obtain ⟨u, hu, he⟩ := after_passes p
  rw [he]
  exact hu.row_le.imp_right fun h => h rfl

/-- From one state to a later one: a token that begins a row stands below all tokens before it. -/
structure Descends (s t : Layout) : Prop where
  row : s.cursor.row ≤ t.cursor.row
  fresh : t.fresh = true → s.cursor.row < t.cursor.row ∨ s.fresh = true ∧ t.cursor = s.cursor

namespace Descends
variable {t u : Layout}

theorem refl (s : Layout) : Descends s s :=
  ⟨Nat.le_refl _, fun h => .inr ⟨h, rfl⟩⟩

theorem settle (s : Layout) : Descends s s.settle :=
  ⟨Nat.le_refl _, fun h => .inr ⟨h, rfl⟩⟩

theorem trans (h : Descends s t) (h' : Descends t u) : Descends s u := by
  refine ⟨h.row.trans h'.row, fun hu => ?_⟩
  rcases h'.fresh hu with hlt | ⟨ht, hcursor⟩
  · exact .inl (Nat.lt_of_le_of_lt h.row hlt)
  · exact hcursor ▸ h.fresh ht

theorem after (s : Layout) (n : Nat) : Descends s (Layout.after (s.cursor.drop n)) := by
  have hle := after_row_le (s.cursor.drop n)
  have hdrop := s.cursor.row_le_drop n
  exact ⟨hdrop.trans hle.1, fun h => .inl (Nat.lt_of_le_of_lt hdrop (hle.2 h))⟩

/-- In one row no token begins a row. -/
theorem inRow (h : Descends s t) (hrow : t.cursor.row = s.cursor.row) (hlt : s.cursor.offset < t.cursor.offset) :
    t.fresh = false := by
  by_contra hfresh
  rcases h.fresh (by simpa using hfresh) with hlt' | ⟨-, hcursor⟩
  · omega
  · rw [hcursor] at hlt
    omega

end Descends

theorem after_sound (hp : p.In cs) : (after p).Sound cs := by
  obtain ⟨u, hu, he⟩ := after_passes p
  obtain ⟨hin, hpassed⟩ := hu.passed hp (.start rfl)
  rw [he]
  exact ⟨hin, hpassed.comments, hu.aligned nofun, fun h => (hu.inRow h).2.imp_right And.right⟩

theorem after_laid (hp : p.In cs) :
    Ordered cs p.offset (after p).cursor.offset (Tree.leavesList (after p).comments) :=
  (after_passed hp).2.laid

theorem after_covers (hp : p.In cs) :
    Covers cs p.offset (after p).cursor.offset (Tree.leavesList (after p).comments) :=
  (after_passed hp).2.covers

theorem ofText_passed (cs : List Char) :
    (ofText cs).cursor.In cs ∧
      Passed cs (Cursor.ofText cs).offset (ofText cs).cursor none (ofText cs).comments := by
  obtain ⟨u, hu, he⟩ := ofText_passes cs
  rw [he]
  exact hu.passed (Cursor.ofText_in cs) (.start rfl)

theorem ofText_sound (cs : List Char) : (ofText cs).Sound cs := by
  obtain ⟨-, -, -, hcolumn, -⟩ := Cursor.ofText_read cs
  obtain ⟨u, hu, he⟩ := ofText_passes cs
  obtain ⟨hin, hpassed⟩ := hu.passed (Cursor.ofText_in cs) (.start rfl)
  rw [he]
  refine ⟨hin, hpassed.comments, hu.aligned fun _ _ _ => hcolumn, fun h => ?_⟩
  have hfresh := hu.fresh rfl
  exact absurd (h.symm.trans hfresh) Bool.false_ne_true

theorem ofText_laid (cs : List Char) :
    Ordered cs 0 (ofText cs).cursor.offset (Tree.leavesList (ofText cs).comments) :=
  (ofText_passed cs).2.laid.mono (Nat.zero_le _) (Nat.le_refl _)

end Layout

end YamlOutline.Syntax
