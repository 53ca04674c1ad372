import YamlOutline.Proofs.Reparse.Indentation
import YamlOutline.Proofs.Reparse.Tokens
import YamlOutline.Proofs.Syntax.FlowRules

/-! Two readings side by side: of a text, and of a piece of it that stands alone in the same column.
As long as they have come to the same place of the piece, the same comes next. -/

namespace YamlOutline.Syntax
open Text (size)
variable {behind : List Char} {stop rows n : Nat} {p p' : Cursor} {s s' : Layout} {c : Char}

/-- The same place in both readings. `behind` follows the piece in the text, where the piece ends at
`stop`; above it the text has `rows` more rows. -/
structure Cursor.Twin (behind : List Char) (stop rows : Nat) (p p' : Cursor) : Prop where
  rest : p.rest = p'.rest ++ behind
  offset : p.offset + size p'.rest = stop
  column : p.column = p'.column
  row : p.row = p'.row + rows
  ends : p'.rest ≠ [] → Sealed p'.rest behind
  notBlank : ∀ c, p'.rest.getLast? = some c → isWhite c = false ∧ isBreak c = false

namespace Cursor

private theorem Twin.next (h : p.Twin behind stop rows p') (hr : p'.rest ≠ []) :
    p.next.Twin behind stop rows p'.next := by
  obtain ⟨c, r, hc⟩ := List.exists_cons_of_ne_nil hr
  have hp : p.rest = c :: (r ++ behind) := by rw [h.rest, hc, List.cons_append]
  have hn : p'.next.rest = r := by rw [rest_next, hc, List.tail_cons]
  constructor
  · rw [rest_next, hp, hn, List.tail_cons]
  · rw [offset_next, hp, hn, ← h.offset, hc]
    simp [size, Nat.add_assoc]
  · rw [column_next, column_next, hp, hc, h.column]
  · rw [row_next, row_next, hp, hc, h.row]
    simp only
    split <;> omega
  · rw [hn]
    intro hne
    exact (hc ▸ h.ends hr).tail hne
  · rw [hn]
    intro d hd
    refine h.notBlank d ?_
    rw [hc, List.getLast?_cons_of_ne_nil (by rintro rfl; cases hd), hd]

theorem Twin.drop (h : p.Twin behind stop rows p') (hn : n ≤ p'.rest.length ∨ behind = []) :
    (p.drop n).Twin behind stop rows (p'.drop n) := by
  induction n generalizing p p' with
  | zero => exact h
  | succ n ih =>
    by_cases hr : p'.rest = []
    · have hbehind : behind = [] := hn.resolve_left (by simp [hr])
      have hp : p.rest = [] := by rw [h.rest, hr, hbehind, List.append_nil]
      have hnext : p.next = p := by simp [Cursor.next, hp]
      have hnext' : p'.next = p' := by simp [Cursor.next, hr]
      rw [Cursor.drop, Cursor.drop, hnext, hnext']
      exact ih h (.inr hbehind)
    · refine ih (h.next hr) (hn.imp_left fun hle => ?_)
      rw [rest_next, List.length_tail]
      omega

/-- What ends inside the piece in the text. -/
theorem Twin.length_le (h : p.Twin behind stop rows p') (hn : (p.drop n).offset ≤ stop) :
    n ≤ p'.rest.length ∨ behind = [] := by
  rw [offset_drop, ← h.offset, h.rest, List.take_append, Text.size_append] at hn
  by_contra hno
  rw [not_or, Nat.not_le] at hno
  obtain ⟨hlt, hne⟩ := hno
  rw [List.take_of_length_le hlt.le] at hn
  have := Text.size_pos (show behind.take (n - p'.rest.length) ≠ [] by simp [hne]; omega)
  omega

end Cursor

namespace Layout

/-- Both readings have come to the same token of the piece. -/
structure Live (behind : List Char) (stop rows : Nat) (s s' : Layout) : Prop where
  cursor : s.cursor.Twin behind stop rows s'.cursor
  more : s'.rest ≠ []
  fresh : s.fresh = s'.fresh
  leading : s.leading = s'.leading
  tabbed : s.tabbed = s'.tabbed
  quiet : Tree.hasFaultList s'.comments = false

/-- The piece has been read, and the reading of the text is beyond it. -/
structure Past (stop : Nat) (s s' : Layout) : Prop where
  done : s'.rest = []
  past : stop ≤ s.cursor.offset
  quiet : Tree.hasFaultList s'.comments = false

def Twin (behind : List Char) (stop rows : Nat) (s s' : Layout) : Prop :=
  Live behind stop rows s s' ∨ Past stop s s'

private theorem close_quiet (open? : Option Nat) (p : Cursor) :
    Tree.hasFaultList (pass.close open? p) = false := by
  cases open? <;> simp [pass.close, Tree.isFault, Tree.kind]

/-- The same place between two tokens in both readings. -/
structure Passage.Twin (behind : List Char) (stop rows : Nat) (s s' : Passage) : Prop where
  cursor : s.cursor.Twin behind stop rows s'.cursor
  fresh : s.fresh = s'.fresh
  gap : s.gap = s'.gap
  leading : s.leading = s'.leading
  tabbed : s.tabbed = s'.tabbed
  opened : s.open?.isSome = s'.open?.isSome
  quiet : Tree.hasFaultList s'.done = false

namespace Passage
variable {s s' t' : Passage} {u' : Layout} {r : List Char}

private theorem Twin.closed (h : s.Twin behind stop rows s') (hclosed : s'.open? = none) :
    s.open? = none := by
  have hopened := h.opened
  rw [hclosed] at hopened
  simpa using hopened

private theorem Twin.commentAllowed (h : s.Twin behind stop rows s') :
    commentAllowed s.fresh s.gap s.cursor = commentAllowed s'.fresh s'.gap s'.cursor := by
  rw [Layout.commentAllowed, Layout.commentAllowed, h.fresh, h.gap, h.cursor.column]

private theorem Twin.rest (h : s.Twin behind stop rows s') (hr : s'.cursor.rest = c :: r) :
    s.cursor.rest = c :: (r ++ behind) := by
  rw [h.cursor.rest, hr, List.cons_append]

private theorem Step.twin (h : Step c s' t') (hs : s.Twin behind stop rows s')
    (hr : s'.cursor.rest = c :: r) :
    ∃ t, Step c s t ∧ t.Twin behind stop rows t' := by
  have hnext := hs.cursor.next (hr ▸ List.cons_ne_nil c r)
  cases h with
  | fold row =>
    exact ⟨_, .fold row, hnext, rfl, rfl, rfl, rfl, rfl, by simp [hs.quiet, close_quiet]⟩
  | inside row null opened =>
    exact ⟨_, .inside row null (hs.opened.trans opened), hnext, hs.fresh, hs.gap, hs.leading, hs.tabbed, hs.opened,
      hs.quiet⟩
  | space space closed =>
    refine ⟨_, .space space (hs.closed closed), hnext, hs.fresh, rfl, ?_, hs.tabbed, hs.opened, hs.quiet⟩
    simp only [hs.leading, hs.tabbed]
  | tab tab closed =>
    exact ⟨_, .tab tab (hs.closed closed), hnext, hs.fresh, rfl, hs.leading, rfl, hs.opened, hs.quiet⟩
  | hash hash allowed closed =>
    exact ⟨_, .hash hash (hs.commentAllowed.trans allowed) (hs.closed closed), hnext, hs.fresh, hs.gap, hs.leading,
      hs.tabbed, rfl, hs.quiet⟩

/-- Blanks and comments are passed alike. -/
private theorem Passes.twin (h : Passes s' u') (hs : s.Twin behind stop rows s') :
    ∃ u, Passes s u ∧ Layout.Twin behind stop rows u u' := by
  induction h generalizing s with
  | @halt s' halts =>
    have hquiet : Tree.hasFaultList s'.out.comments = false := by simp [out, hs.quiet, close_quiet]
    have live (hne : s'.cursor.rest ≠ []) : Live behind stop rows s.out s'.out :=
      ⟨hs.cursor, hne, hs.fresh, hs.leading, hs.tabbed, hquiet⟩
    cases halts with
    | done rest =>
      obtain ⟨u, hu⟩ := s.exists_passes
      refine ⟨u, hu, .inr ⟨rest, ?_, hquiet⟩⟩
      have hstop := hs.cursor.offset
      rw [rest] at hstop
      exact hstop.symm.le.trans hu.offset_le
    | @null c r rest null =>
      exact ⟨_, .halt (.null (hs.rest rest) null), .inl (live (rest ▸ List.cons_ne_nil c r))⟩
    | @token c r rest opens closed =>
      have hopens : s.opens c = true := by rwa [Passage.opens, hs.commentAllowed]
      exact ⟨_, .halt (.token (hs.rest rest) hopens (hs.closed closed)), .inl (live (rest ▸ List.cons_ne_nil c r))⟩
  | step rest step _ ih =>
    obtain ⟨t, hstep, ht⟩ := step.twin hs rest
    obtain ⟨u, hu, htwin⟩ := ih ht
    exact ⟨u, .step (hs.rest rest) hstep hu, htwin⟩

end Passage

theorem after_twin (h : p.Twin behind stop rows p') : Twin behind stop rows (after p) (after p') := by
  obtain ⟨u', hu', he'⟩ := after_passes p'
  have hbehind : (Passage.behind p).Twin behind stop rows (.behind p') := ⟨h, rfl, rfl, rfl, rfl, rfl, rfl⟩
  obtain ⟨u, hu, htwin⟩ := hu'.twin hbehind
  rw [he', hu.after_eq]
  rcases htwin with h | h
  · exact .inl ⟨h.cursor, h.more, h.fresh, h.leading, h.tabbed, h.quiet⟩
  · exact .inr ⟨h.done, h.past, h.quiet⟩

/-! ### What the rules ask about a token -/

namespace Live

theorem rest (h : Live behind stop rows s s') : s.rest = s'.rest ++ behind :=
  h.cursor.rest

theorem ends (h : Live behind stop rows s s') : Sealed s'.rest behind :=
  h.cursor.ends h.more

theorem lt_stop (h : Live behind stop rows s s') : s.cursor.offset < stop := by
  have := Text.size_pos h.more
  have := h.cursor.offset
  exact Nat.lt_of_lt_of_eq (Nat.lt_add_of_pos_right ‹_›) this

theorem at? (h : Live behind stop rows s s') (c : Char) : s.at? c = s'.at? c := by
  rw [Layout.at?, Layout.at?, h.rest, List.head?_append_of_ne_nil _ h.more]

theorem atMark (h : Live behind stop rows s s') (hc : looksAhead c = true) :
    s.atMark c = s'.atMark c := by
  have hends := h.ends
  obtain ⟨d, r, hr⟩ := List.exists_cons_of_ne_nil h.more
  rw [hr] at hends
  simp only [Layout.atMark, h.rest, hr, List.cons_append]
  by_cases hd : d = c
  · rw [atGap_append hends (hd ▸ hc)]
  · rw [beq_eq_false_iff_ne.mpr hd, Bool.false_and, Bool.false_and]

theorem atEnd (h : Live behind stop rows s s') : s.atEnd = s'.atEnd := by
  obtain ⟨d, r, hr⟩ := List.exists_cons_of_ne_nil h.more
  simp only [Layout.atEnd, h.rest, hr, List.cons_append]

theorem column (h : Live behind stop rows s s') : s.column = s'.column :=
  h.cursor.column

theorem atDocument (h : Live behind stop rows s s') : s.atDocument = s'.atDocument := by
  rw [Layout.atDocument, Layout.atDocument, h.column, h.rest, atDocumentMarker_append h.ends h.more]

theorem atProperty (h : Live behind stop rows s s') : s.atProperty = s'.atProperty := by
  rw [Layout.atProperty, Layout.atProperty, h.at?, h.at?]

private theorem atClosing (h : Live behind stop rows s s') : s.atClosing = s'.atClosing := by
  rw [Layout.atClosing, Layout.atClosing, h.at?, h.at?]

theorem atSeparator (h : Live behind stop rows s s') : s.atSeparator = s'.atSeparator := by
  rw [Layout.atSeparator, Layout.atSeparator, h.at?, h.atClosing]

theorem atFlowColon (h : Live behind stop rows s s') : s.atFlowColon = s'.atFlowColon := by
  have hends := h.ends
  obtain ⟨d, r, hr⟩ := List.exists_cons_of_ne_nil h.more
  rw [hr] at hends
  simp only [Layout.atFlowColon, h.rest, hr, List.cons_append]
  by_cases hd : d = ':'
  · subst hd
    cases r with
    | nil =>
      have hgap : atGap behind = true := hends.gap_of_last rfl rfl
      change (atGap behind || _) = true
      rw [hgap, Bool.true_or]
    | cons e r => rfl
  · split <;> split <;> simp_all

theorem within (h : Live behind stop rows s s') {i i' : Indent} (hi : i'.floor ≤ i.floor)
    (hw : s.within i = true) : s'.within i' = true := by
  simp only [Layout.within, Bool.or_eq_true, decide_eq_true_eq, h.fresh, h.leading] at hw ⊢
  exact hw.imp_right hi.trans

end Live

/-- A token that ends in the piece. -/
theorem Live.read (h : Live behind stop rows s s') (hn : (s.cursor.drop n).offset ≤ stop) :
    Twin behind stop rows (after (s.cursor.drop n)) (after (s'.cursor.drop n)) :=
  after_twin (h.cursor.drop (h.cursor.length_le hn))

/-- The lexers find a token of the same length. -/
theorem Live.length {L : List Char → Option Nat}
    (hL : ∀ {cs behind n}, L (cs ++ behind) = some n → n ≤ cs.length → L cs = some n)
    (h : Live behind stop rows s s') (hl : L s.rest = some n)
    (hn : (s.cursor.drop n).offset ≤ stop) : L s'.rest = some n := by
  rw [h.rest] at hl
  rcases h.cursor.length_le hn with hle | rfl
  · exact hL hl hle
  · rwa [List.append_nil] at hl

end Layout

end YamlOutline.Syntax
