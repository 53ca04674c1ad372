import YamlOutline.Proofs.Syntax.BlockScalarRuns
import YamlOutline.Proofs.Syntax.FlowRules

/-! Block scalars: what stands beside their header, which lines they have, and what they add to the tree. -/

namespace YamlOutline.Syntax
variable {cs : List Char} {s u : Layout} {ts us : List Tree} {i : Indent} {content header : Tree} {p q : Cursor}
  {floor k n : Nat} {stated : Option Nat}

/-! ### Lines -/

theorem BlockScalar.header?_ne_zero {rest : List Char}
    (h : header? rest = some (n, stated)) : n ≠ 0 := by
  rcases rest with _ | ⟨c, rest⟩
  · cases h
  · simp only [header?] at h
    split at h
    · split at h <;> cases h
      simp
    · cases h

/-- Where no line has text the lines take nothing, and before the first that has there are only blanks. -/
def BlockScalar.BehindGap (cs : List Char) (n : Nat) (f : Option Nat) : Prop :=
  (f = none ∧ n = 0) ∨ ∃ g, f = some g ∧ ∀ c ∈ cs.take g, isWhite c = true ∨ isBreak c = true

private theorem BlockScalar.BehindGap.cons {c : Char} {f : Option Nat} (h : BehindGap cs n f)
    (hc : isWhite c = true ∨ isBreak c = true) : BehindGap (c :: cs) (Part.gap.length n) (Part.gap.start f) := by
  obtain ⟨rfl, rfl⟩ | ⟨g, rfl, hgap⟩ := h
  · exact .inl ⟨rfl, rfl⟩
  · refine .inr ⟨g + 1, rfl, ?_⟩
    rw [List.take_succ_cons]
    exact List.forall_mem_cons.mpr ⟨hc, hgap⟩

private theorem BlockScalar.Run.behindGap {leading column : Nat} {tabbed : Bool} {f : Option Nat}
    (h : Run floor cs (.between leading tabbed column) n f) : BehindGap cs n f := by
  induction cs generalizing leading tabbed column n f with
  | nil =>
    cases h
    exact .inl ⟨rfl, rfl⟩
  | cons c r ih =>
    cases h with
    | stop => exact .inl ⟨rfl, rfl⟩
    | step step rest =>
      cases step with
      | fold _ row => exact (ih rest).cons (.inr row)
      | space space => exact (ih rest).cons (.inl (by simp [isWhite, space]))
      | tab tab => exact (ih rest).cons (.inl (by simp [isWhite, tab]))
      | first => exact .inr ⟨0, rfl, by simp⟩

theorem BlockScalar.lines_behindGap {f : Option Nat} (h : lines floor cs = .ok (n, f)) : BehindGap cs n f := by
  obtain ⟨hhead, hrun⟩ := lines_eq_ok.mp h
  cases hrun with
  | nil | stop => exact .inl ⟨rfl, rfl⟩
  | step step rest =>
    cases step with
    | fold _ row => exact rest.behindGap.cons (.inr row)
    | visible visible =>
      rw [(gap_of_rowEnd (hhead _ rfl)).1] at visible
      cases visible
    | white white =>
      rw [(gap_of_rowEnd (hhead _ rfl)).2] at white
      cases white

private theorem BlockScalar.Run.start_lt {mode : Mode} {f : Option Nat} {g : Nat}
    (h : Run floor cs mode n f)
    (hf : f = some g) : g < n := by
  induction h generalizing g with
  | nil | stop => cases hf
  | @step c r mode next part n f step rest ih =>
    cases part with
    | first =>
      cases hf
      exact Nat.succ_pos n
    | gap | text =>
      obtain ⟨g, rfl, rfl⟩ := Option.map_eq_some_iff.mp hf
      have hlt := ih rfl
      obtain ⟨n, rfl⟩ := Nat.exists_eq_add_one_of_ne_zero (Nat.ne_zero_of_lt hlt)
      exact Nat.succ_lt_succ hlt

theorem BlockScalar.lines_start_lt {f : Nat} (h : lines floor cs = .ok (n, some f)) : f < n :=
  (lines_eq_ok.mp h).2.start_lt rfl

/-! ### What the rule has read -/

/-- The comment beside a header that ends at `p`, if there is one. -/
def besideHeader (p : Cursor) : List Tree :=
  if commentLength (pastBlanks p) = 0 then []
  else [.leaf .comment ((pastBlanks p).spanOf (commentLength (pastBlanks p)))]

/-- Whether a comment beside a header that ends at `p` stands where no line of the scalar could. -/
def isOutdented (stated : Option Nat) (floor : Nat) (p : Cursor) : Bool :=
  commentLength (pastBlanks p) != 0 &&
    (pastBlanks p).column < BlockScalar.textFloor stated floor (pastComment p).rest

/-- Behind its header a block scalar has lines or none. -/
inductive ScalarBehind (stated : Option Nat) (floor : Nat) (header : Tree) (p : Cursor) : Tree → Layout → Prop where
  | outdented (outdented : isOutdented stated floor p = true) :
      ScalarBehind stated floor header p (.node .blockScalar [header]) (.after p)
  | text {k f : Nat} (fits : isOutdented stated floor p = false)
      (lines : BlockScalar.lines (BlockScalar.textFloor stated floor (pastComment p).rest) (pastComment p).rest =
        .ok (k, some f)) :
      ScalarBehind stated floor header p
        (.node .blockScalar (header :: besideHeader p ++
          [.leaf .blockText ⟨((pastComment p).drop f).offset, ((pastComment p).drop k).offset⟩]))
        (.after ((pastComment p).drop k))
  | empty {k : Nat} (fits : isOutdented stated floor p = false)
      (lines : BlockScalar.lines (BlockScalar.textFloor stated floor (pastComment p).rest) (pastComment p).rest =
        .ok (k, none)) :
      ScalarBehind stated floor header p (.node .blockScalar (header :: besideHeader p))
        { Layout.after (pastComment p) with stop := p.offset }

private theorem scalarBehind_eq_ok : scalarBehind stated floor header p = .ok (content, u) ↔
    ScalarBehind stated floor header p content u := by
  change (if isOutdented stated floor p then _ else _) = _ ↔ _
  constructor
  · intro h
    split at h
    · cases h
      exact .outdented ‹_›
    rename_i hfits
    have hfits := eq_false_of_ne_true hfits
    split at h <;> cases h
    · exact .text hfits ‹_›
    · exact .empty hfits ‹_›
  · rintro (houtdented | ⟨hfits, hlines⟩ | ⟨hfits, hlines⟩)
    · rw [if_pos houtdented]
    · rw [if_neg (by simp [hfits]), hlines]
      rfl
    · rw [if_neg (by simp [hfits]), hlines]
      rfl

theorem blockScalar_eq_ok : blockScalar i s = .ok (content, u) ↔
    ∃ n stated, BlockScalar.header? s.rest = some (n, stated) ∧
      ScalarBehind stated i.floor (.leaf .mark (s.cursor.spanOf n)) (s.cursor.drop n) content u := by
  unfold blockScalar
  constructor
  · intro h
    split at h
    · cases h
    · exact ⟨_, _, ‹_›, scalarBehind_eq_ok.mp h⟩
  · rintro ⟨n, stated, hheader, h⟩
    rw [hheader]
    exact scalarBehind_eq_ok.mpr h

/-! ### What the rule adds -/

/-- Leaves that fill a stretch of the source, but for white space. -/
structure Fills (cs : List Char) (lo hi : Nat) (ts : List Tree) : Prop where
  genuine : AllGenuine cs ts
  laid : Ordered cs lo hi (Tree.leavesList ts)
  covers : Covers cs lo hi (Tree.leavesList ts)

private theorem Fills.append {lo mid hi : Nat} (h : Fills cs lo mid ts) (h' : Fills cs mid hi us) :
    Fills cs lo hi (ts ++ us) where
  genuine := allGenuine_append.mpr ⟨h.genuine, h'.genuine⟩
  laid := by
    rw [Tree.leavesList_append]
    exact h.laid.append h'.laid
  covers := by
    rw [Tree.leavesList_append]
    exact h.covers.append h'.covers

private theorem Fills.blank (hp : p.In cs) (h : ∀ c ∈ p.rest.take n, Text.isBlank c = true) :
    Fills cs p.offset (p.drop n).offset [] :=
  ⟨allGenuine_nil, p.offset_le_drop n, hp.covers h⟩

/-- A leaf that is no content of a node may be empty. -/
private theorem Fills.leaf {k : Kind} (hp : p.In cs) (hk : Node.isAside k = true)
    (hcomment : k = .comment → IsComment cs (p.spanOf n)) :
    Fills cs p.offset (p.drop n).offset [.leaf k (p.spanOf n)] where
  genuine := by simp [Genuine, hk]
  laid := by
    have hle : p.offset ≤ (p.drop n).offset := p.offset_le_drop n
    exact ⟨Nat.le_refl _, hle, hp.boundary, (hp.drop n).boundary, Nat.le_refl _⟩
  covers := by
    have hcovers : Covers cs (p.spanOf n).start (p.spanOf n).stop [(k, p.spanOf n)] := .leaf hcomment
    exact hcovers

private theorem isComment_of_commentLength (hp : p.In cs) (hm : commentLength p ≠ 0) :
    IsComment cs (p.spanOf (commentLength p)) := by
  unfold commentLength at hm ⊢
  split at hm
  · rename_i hhead
    rw [if_pos hhead]
    obtain ⟨r, hr⟩ := List.head?_eq_some_iff.mp (beq_iff_eq.mp hhead)
    have htake := List.prefix_iff_eq_take.mp (List.takeWhile_prefix (fun c => !isBreak c && !isNull c) (l := p.rest))
    refine ⟨r.takeWhile fun c => !isBreak c && !isNull c, ?_, fun c hc => ?_⟩
    · rw [Cursor.spanOf, hp.slice, ← htake, hr]
      rfl
    · have hrow := List.mem_takeWhile_imp hc
      rw [Bool.and_eq_true, Bool.not_eq_true'] at hrow
      exact hrow.1
  · exact absurd rfl hm

/-- Beside a header there is nothing but the comment. -/
private theorem besideHeader_fills (hp : p.In cs) :
    Fills cs p.offset (pastComment p).offset (besideHeader p) := by
  have hblanks : Fills cs p.offset (pastBlanks p).offset [] := by
    refine .blank hp fun c hc => ?_
    rw [← List.prefix_iff_eq_take.mp (List.takeWhile_prefix _)] at hc
    exact isBlank_of_isWhite (List.mem_takeWhile_imp hc)
  unfold besideHeader
  split
  · rename_i hm
    rwa [pastComment, hm]
  · rename_i hm
    exact hblanks.append (.leaf (hp.drop _) rfl fun _ => isComment_of_commentLength (hp.drop _) hm)

/-- The first line begins behind blank lines. -/
private theorem text_fills {f : Nat} (hq : q.In cs)
    (h : BlockScalar.lines floor q.rest = .ok (k, some f)) :
    Fills cs q.offset (q.drop k).offset [.leaf .blockText ⟨(q.drop f).offset, (q.drop k).offset⟩] := by
  have hblank : Fills cs q.offset (q.drop f).offset [] := by
    obtain ⟨hnone, -⟩ | ⟨g, hg, hgap⟩ := BlockScalar.lines_behindGap h
    · cases hnone
    · cases hg
      exact .blank hq fun c hc => (hgap c hc).elim isBlank_of_isWhite isBlank_of_isBreak
  have htext : Fills cs (q.drop f).offset ((q.drop f).drop (k - f)).offset
      [.leaf .blockText ((q.drop f).spanOf (k - f))] :=
    .leaf (hq.drop f) rfl nofun
  rw [Cursor.spanOf, Cursor.drop_add, Nat.add_sub_cancel' (BlockScalar.lines_start_lt h).le] at htext
  exact hblank.append htext

/-- Leaves that reach from the state up to `q`. -/
private theorem Fills.adds (hs : s.Sound cs) (hq : q.In cs)
    (h : Fills cs s.cursor.offset q.offset ts) (stop : Nat) :
    Adds cs s.settle [] ts { Layout.after q with stop } := by
  have hlaid := h.laid.append (Layout.after_laid hq)
  have hcovers := h.covers.append (Layout.after_covers hq)
  rw [← Tree.leavesList_append] at hlaid hcovers
  have hafter := Layout.after_sound hq
  obtain ⟨n, rfl⟩ := hs.inText.drop_of_le hq h.laid.le
  have hdescends := Layout.Descends.after s.settle n
  exact ⟨⟨hafter.inText, hafter.comments, hafter.aligned, hafter.inRow⟩, h.genuine, hlaid.le,
    ⟨hdescends.row, hdescends.fresh⟩, fun lo hlo => hlaid.mono hlo.le (Nat.le_refl _), by simp,
    by simp [Layout.settle], hcovers⟩

theorem blockScalar_adds (hs : s.Sound cs) (h : blockScalar i s = .ok (content, u)) :
    Adds cs s.settle [] [content] u ∧ Begins s [content] := by
  obtain ⟨n, stated, hheader, h⟩ := blockScalar_eq_ok.mp h
  have hr : s.rest ≠ [] := by
    intro hn
    simp [hn, BlockScalar.header?] at hheader
  have hn := BlockScalar.header?_ne_zero hheader
  have hp := hs.inText.drop n
  have hmark : Fills cs s.cursor.offset (s.cursor.drop n).offset [.leaf .mark (s.cursor.spanOf n)] :=
    .leaf hs.inText rfl nofun
  have hbeside := besideHeader_fills hp
  have hq : (pastComment (s.cursor.drop n)).In cs := (hp.drop _).drop _
  have conclude {ts : List Tree} {r : Cursor} (stop : Nat) (hr' : r.In cs)
      (hfills : Fills cs (s.cursor.drop n).offset r.offset ts) :
      Adds cs s.settle [] [.node .blockScalar (.leaf .mark (s.cursor.spanOf n) :: ts)]
          { Layout.after r with stop } ∧
        Begins s [.node .blockScalar (.leaf .mark (s.cursor.spanOf n) :: ts)] := by
    have hbegins : Begins s (.leaf .mark (s.cursor.spanOf n) :: ts) :=
      (Layout.begins_leaf hr hn (by simp)).append
    exact ⟨((hmark.append hfills).adds hs hr' stop).node hbegins.hasContent nofun, hbegins.node⟩
  cases h with
  | outdented =>
    exact conclude (s.cursor.drop n).offset hp ⟨allGenuine_nil, Nat.le_refl _, .of_le (Nat.le_refl _)⟩
  | @text k f _ lines => exact conclude _ (hq.drop k) (hbeside.append (text_fills hq lines))
  | empty => exact conclude _ hq hbeside

end YamlOutline.Syntax
