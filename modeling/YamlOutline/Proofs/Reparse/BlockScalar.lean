import YamlOutline.Proofs.Reparse.Flow
import YamlOutline.Proofs.Syntax.BlockScalars

/-! Block scalars of a text and of a piece of it. A scalar whose lines end inside the piece has the
same lines there; one whose header is the last token of the piece has none. -/

namespace YamlOutline.Syntax.BlockScalar
variable {cs behind : List Char} {c : Char} {n : Nat} {stated : Option Nat}

private theorem signs_append (h : (header?.signs (cs ++ behind)).1 ≤ cs.length) :
    header?.signs (cs ++ behind) = header?.signs cs := by
  rcases cs with _ | ⟨a, _ | ⟨b, r⟩⟩
  · rcases behind with _ | ⟨a, _ | ⟨b, r⟩⟩
    · rfl
    · simp only [List.nil_append, header?.signs, List.length_nil] at h ⊢
      split at h
      · cases h
      · split_ifs at h ⊢
        · cases h
        · rfl
    · simp only [List.nil_append, header?.signs, List.length_nil] at h ⊢
      split at h <;> split_ifs at h ⊢ <;> simp_all
      split at h <;> simp_all
  · rcases behind with _ | ⟨b, r⟩
    · rfl
    · simp only [List.cons_append, List.nil_append, header?.signs, List.length_cons, List.length_nil] at h ⊢
      split at h <;> split_ifs at h ⊢ <;> simp_all
      split at h <;> simp_all
  · rfl

private theorem header?_append (h : header? (cs ++ behind) = some (n, stated))
    (hn : n ≤ cs.length) :
    header? cs = some (n, stated) := by
  cases cs with
  | nil => exact absurd (Nat.le_zero.mp hn) (header?_ne_zero h)
  | cons c r =>
    simp only [List.cons_append, header?] at h ⊢
    split at h
    · rename_i hc
      rw [if_pos hc]
      split at h <;> cases h
      rename_i hgap
      rw [List.length_cons] at hn
      have hsigns : header?.signs (r ++ behind) = header?.signs r := signs_append (by omega)
      rw [hsigns] at hn hgap ⊢
      rw [if_pos]
      rw [List.drop_append_of_le_length (by omega)] at hgap
      rcases hr : r.drop (header?.signs r).1 with _ | ⟨d, v⟩
      · rfl
      · rwa [hr] at hgap
    · cases h

private theorem detect_append {column floor : Nat} (hne : cs ≠ [])
    (hlast : ∀ c, cs.getLast? = some c → isWhite c = false ∧ isBreak c = false) :
    detect (cs ++ behind) column floor = detect cs column floor := by
  induction cs generalizing column floor with
  | nil => exact absurd rfl hne
  | cons c r ih =>
    have next (hc : isWhite c = true ∨ isBreak c = true) (column floor : Nat) :
        detect (r ++ behind) column floor = detect r column floor := by
      rcases r with _ | ⟨d, r⟩
      · have := hlast c rfl
        simp_all
      · exact ih (List.cons_ne_nil d r) fun e he => hlast e (by rwa [List.getLast?_cons_cons])
    rw [List.cons_append, detect, detect]
    split_ifs with hnull hspace hbreak
    · rfl
    · exact next (.inl (by simp_all [isWhite])) _ _
    · rfl
    · exact next (.inr hbreak) _ _
    · rfl

/-- Characters that may be anything belong to the lines. -/
private theorem Run.taken_le {floor left : Nat} {f : Option Nat}
    (h : Run floor (cs ++ behind) (.taken left) n f)
    (hne : cs ≠ []) (hleft : cs.length ≤ left) : cs.length ≤ n := by
  induction cs generalizing left n f with
  | nil => exact absurd rfl hne
  | cons c r ih =>
    cases h with
    | stop stops => cases stops
    | step step rest =>
      cases step with
      | fold folds => cases folds
      | taken =>
        refine Nat.succ_le_succ ?_
        rcases r with _ | ⟨d, r⟩
        · exact Nat.zero_le _
        · rw [List.length_cons, List.length_cons] at hleft
          rw [if_neg (by omega)] at rest
          exact ih rest (List.cons_ne_nil d r) (by rw [List.length_cons]; omega)

private theorem endsLines_append {floor column : Nat} {tabbed : Bool} {r : List Char}
    (hends : Sealed (c :: r) behind) :
    endsLines floor c (r ++ behind) tabbed column = endsLines floor c r tabbed column := by
  have hmarker := atDocumentMarker_append hends (List.cons_ne_nil c r)
  rw [List.cons_append] at hmarker
  rw [endsLines, endsLines, hmarker]

private theorem lineMode_append {column : Nat} {r : List Char}
    (h : ∀ left, lineMode c (r ++ behind) column = .taken left → left ≤ r.length) :
    lineMode c (r ++ behind) column = lineMode c r column := by
  unfold lineMode at h ⊢
  by_cases hcolumn : column = 0
  · rw [likeMarker_append_of_le fun left hlike => h left (by simp [hcolumn, hlike])]
  · simp [hcolumn]

private theorem Step.of_append {floor : Nat} {r : List Char} {mode next : Mode} {part : Part}
    (hends : Sealed (c :: r) behind)
    (h : Step floor c (r ++ behind) mode next part) (hleft : ∀ left, next = .taken left → left ≤ r.length) :
    Step floor c r mode next part := by
  cases h with
  | fold folds row => exact .fold folds row
  | visible visible => exact .visible visible
  | white white => exact .white white
  | taken => exact .taken
  | space space => exact .space space
  | tab tab => exact .tab tab
  | first more indented visible =>
    rw [endsLines_append hends] at more
    rw [lineMode_append hleft]
    exact .first more indented visible

private theorem Step.gap {floor : Nat} {r : List Char} {mode next : Mode}
    (h : Step floor c r mode next .gap) :
    isWhite c = true ∨ isBreak c = true := by
  cases h with
  | fold _ row => exact .inr row
  | white white => exact .inl white
  | space space => exact .inl (by simp [isWhite, space])
  | tab tab => exact .inl (by simp [isWhite, tab])

/-- Lines that end before the piece does. -/
private theorem Run.of_append {floor : Nat} {mode : Mode} {f : Option Nat} (hne : cs ≠ [])
    (hends : Sealed cs behind)
    (hlast : ∀ c, cs.getLast? = some c → isWhite c = false ∧ isBreak c = false) (hn : n < cs.length)
    (h : Run floor (cs ++ behind) mode n f) : Run floor cs mode n f := by
  induction cs generalizing mode n f with
  | nil => exact absurd rfl hne
  | cons c r ih =>
    cases h with
    | stop stops =>
      refine .stop ?_
      cases stops with
      | line null => exact .line null
      | between row white ends => exact .between row white (endsLines_append hends ▸ ends)
    | @step _ _ _ next part m g step rest =>
      rw [List.length_cons] at hn
      -- the last character is text, and does not belong to the lines
      have hr : r ≠ [] := by
        rintro rfl
        cases part with
        | gap =>
          have hc := hlast c rfl
          obtain hwhite | hbreak := step.gap
          · rw [hc.1] at hwhite
            cases hwhite
          · rw [hc.2] at hbreak
            cases hbreak
        | text | first => exact absurd (Nat.lt_of_succ_lt_succ hn) (Nat.not_lt_zero m)
      have hm : m < r.length := by
        have hpos := List.length_pos_of_ne_nil hr
        cases part with
        | gap =>
          cases m with
          | zero => exact hpos
          | succ m => exact Nat.lt_of_succ_lt_succ hn
        | text | first => exact Nat.lt_of_succ_lt_succ hn
      refine .step (step.of_append hends ?_) (ih hr (hends.tail hr)
        (fun d hd => hlast d (by rwa [List.getLast?_cons_of_ne_nil hr])) hm rest)
      rintro left rfl
      by_contra hlt
      exact absurd (rest.taken_le hr (Nat.le_of_not_le hlt)) (Nat.not_le_of_lt hm)

private theorem lines_append {floor : Nat} {f : Option Nat} (hne : cs ≠ [])
    (hends : Sealed cs behind)
    (hlast : ∀ c, cs.getLast? = some c → isWhite c = false ∧ isBreak c = false) (hn : n < cs.length)
    (h : lines floor (cs ++ behind) = .ok (n, f)) : lines floor cs = .ok (n, f) := by
  obtain ⟨hhead, hrun⟩ := lines_eq_ok.mp h
  rw [List.head?_append_of_ne_nil _ hne] at hhead
  exact lines_eq_ok.mpr ⟨hhead, hrun.of_append hne hends hlast hn⟩

private theorem textFloor_append {floor : Nat} (hne : cs ≠ [])
    (hlast : ∀ c, cs.getLast? = some c → isWhite c = false ∧ isBreak c = false) :
    textFloor stated floor (cs ++ behind) = textFloor stated floor cs := by
  obtain ⟨c, r, rfl⟩ := List.exists_cons_of_ne_nil hne
  cases stated with
  | some d => rfl
  | none =>
    simp only [textFloor, List.cons_append]
    split
    · rename_i hbreak
      have hr : r ≠ [] := by
        rintro rfl
        simp [hlast c rfl] at hbreak
      exact detect_append hr fun d hd => hlast d (by rwa [List.getLast?_cons_of_ne_nil hr])
    · rfl

end YamlOutline.Syntax.BlockScalar

namespace YamlOutline.Syntax
variable {cs behind : List Char} {stop rows floor n m : Nat} {stated : Option Nat} {s s' t u : Layout}
  {i i' : Indent} {header content : Tree} {p p' q q' : Cursor}

/-! ### A comment at the very end -/

private theorem Layout.Passage.exists_passes_inside {s : Passage} (hopen : s.open?.isSome = true)
    (hs : ∀ c ∈ s.cursor.rest, (!isBreak c && !isNull c) = true) : ∃ u, Passes s u ∧ u.rest = [] := by
  generalize hr : s.cursor.rest = text at hs
  induction text generalizing s with
  | nil => exact ⟨s.out, .halt (.done hr), hr⟩
  | cons c text ih =>
    obtain ⟨hc, htext⟩ := List.forall_mem_cons.mp hs
    rw [Bool.and_eq_true, Bool.not_eq_true', Bool.not_eq_true'] at hc
    have step : Step c s { s with cursor := s.cursor.next } := .inside hc.1 hc.2 hopen
    obtain ⟨u, hu, hdone⟩ := ih (s := { s with cursor := s.cursor.next }) hopen (step.rest hr) htext
    exact ⟨u, .step hr step hu, hdone⟩

/-! ### Both readings -/

private theorem Cursor.Twin.pastBlanks (h : p.Twin behind stop rows p') (hr : p'.rest ≠ []) :
    (pastBlanks p).Twin behind stop rows (pastBlanks p') ∧ (Syntax.pastBlanks p').rest ≠ [] := by
  have hlast := List.getLast?_eq_some_getLast hr
  have hvisible : ¬(p'.rest.takeWhile isWhite).length = p'.rest.length := by
    intro he
    have hall := (List.takeWhile_prefix isWhite).eq_of_length he
    have hmem : p'.rest.getLast hr ∈ p'.rest.takeWhile isWhite := by
      rw [hall]
      exact List.getLast_mem hr
    have := List.mem_takeWhile_imp hmem
    rw [(h.notBlank _ hlast).1] at this
    cases this
  have hle := (List.takeWhile_prefix isWhite (l := p'.rest)).length_le
  have hsame : (p.rest.takeWhile isWhite).length = (p'.rest.takeWhile isWhite).length := by
    rw [h.rest, List.takeWhile_append, if_neg hvisible]
  refine ⟨?_, ?_⟩
  · rw [Syntax.pastBlanks, Syntax.pastBlanks, hsame]
    exact h.drop (.inl hle)
  · rw [Syntax.pastBlanks, Cursor.rest_drop, Ne, List.drop_eq_nil_iff]
    omega

private theorem Cursor.Twin.lt_length (h : p.Twin behind stop rows p')
    (hn : (p.drop n).offset < stop) :
    n < p'.rest.length := by
  by_contra hle
  have hend := (h.drop (.inl (Nat.le_refl p'.rest.length))).offset
  rw [Cursor.rest_drop, List.drop_length] at hend
  have hadd : p.drop n = (p.drop p'.rest.length).drop (n - p'.rest.length) := by
    rw [Cursor.drop_add, Nat.add_sub_cancel' (by omega)]
  rw [hadd, ← hend] at hn
  exact Nat.not_lt_of_le (Cursor.offset_le_drop _ _) hn

private theorem Cursor.Twin.length_le_of_le (h : p.Twin behind stop rows p')
    (hn : stop ≤ (p.drop n).offset) :
    p'.rest.length ≤ n := by
  by_contra hlt
  have hend := (h.drop (.inl (Nat.le_of_not_le hlt))).offset
  have hmore : (p'.drop n).rest ≠ [] := by
    rw [Cursor.rest_drop, Ne, List.drop_eq_nil_iff]
    omega
  have := Text.size_pos hmore
  omega

/-- A comment ends inside the piece, or goes on to the end of it and beyond. -/
private theorem Cursor.Twin.commentLength (h : p.Twin behind stop rows p') (hr : p'.rest ≠ []) :
    (commentLength p = commentLength p' ∧ commentLength p' < p'.rest.length) ∨
      (commentLength p' = p'.rest.length ∧ p'.rest.length ≤ commentLength p ∧
        p'.rest.head? = some '#' ∧ ∀ c ∈ p'.rest, (!isBreak c && !isNull c) = true) := by
  have hhead : p.rest.head? = p'.rest.head? := by rw [h.rest, List.head?_append_of_ne_nil _ hr]
  unfold Syntax.commentLength
  rw [hhead]
  split
  · rename_i hhash
    rw [h.rest, List.takeWhile_append]
    split
    · rename_i hall
      have he := (List.takeWhile_prefix (fun c => !isBreak c && !isNull c)).eq_of_length hall
      refine .inr ⟨hall, by simp, by simpa using hhash, fun c hc => ?_⟩
      rw [← he] at hc
      exact List.mem_takeWhile_imp (p := fun c => !isBreak c && !isNull c) hc
    · have hle := (List.takeWhile_prefix (fun c => !isBreak c && !isNull c) (l := p'.rest)).length_le
      exact .inl ⟨rfl, by omega⟩
  · exact .inl ⟨rfl, List.length_pos_of_ne_nil hr⟩

private theorem Cursor.offset_le_pastComment (p : Cursor) : p.offset ≤ (pastComment p).offset :=
  (p.offset_le_drop _).trans (Cursor.offset_le_drop _ _)

theorem Layout.offset_le_after (p : Cursor) : p.offset ≤ (after p).cursor.offset := by
  obtain ⟨u, hu, he⟩ := after_passes p
  rw [he]
  exact hu.offset_le

private theorem ScalarBehind.onward (h : ScalarBehind stated floor header p content u) :
    (∃ ts, content = .node .blockScalar (header :: ts)) ∧
      (u = .after p ∨ (pastComment p).offset ≤ u.cursor.offset) := by
  cases h with
  | outdented => exact ⟨⟨[], rfl⟩, .inl rfl⟩
  | text => exact ⟨⟨_, rfl⟩, .inr ((Cursor.offset_le_drop _ _).trans (Layout.offset_le_after _))⟩
  | empty => exact ⟨⟨_, rfl⟩, .inr (Layout.offset_le_after _)⟩

private theorem hasFaultList_besideHeader (p : Cursor) :
    Tree.hasFaultList (besideHeader p) = false := by
  unfold besideHeader
  split <;> rfl

private theorem ScalarBehind.hasFault (h : ScalarBehind stated floor header p content u)
    (hh : header.hasFault = false) :
    content.hasFault = false := by
  cases h <;> simp [Tree.isFault, Tree.kind, hh, hasFaultList_besideHeader]

/-- Behind a header with nothing beside it the two readings go on, or the piece ends in that row. -/
inductive Beside (behind : List Char) (stop rows : Nat) (p p' : Cursor) : Prop where
  | inside (blanks : (pastBlanks p).Twin behind stop rows (pastBlanks p'))
      (comment : commentLength (pastBlanks p) = commentLength (pastBlanks p'))
      (row : (pastComment p).Twin behind stop rows (pastComment p')) (more : (pastComment p').rest ≠ [])
  | ended (row : (pastComment p').rest = []) (done : (Layout.after p').rest = [])
      (past : stop ≤ (pastComment p).offset)

/-- White space and a comment up to the end leave nothing. -/
private theorem Layout.after_done_of_comment (hgap : p.rest.takeWhile isWhite ≠ [])
    (hhash : (pastBlanks p).rest.head? = some '#')
    (hall : ∀ c ∈ (pastBlanks p).rest, (!isBreak c && !isNull c) = true) : (after p).rest = [] := by
  have hsplit : p.rest.takeWhile isWhite ++ (pastBlanks p).rest = p.rest := by
    rw [pastBlanks, Cursor.rest_drop]
    exact List.prefix_iff_eq_append.mp (List.takeWhile_prefix isWhite)
  obtain ⟨text, htext⟩ := List.head?_eq_some_iff.mp hhash
  rw [htext] at hsplit hall
  obtain ⟨t, ht⟩ := Passage.exists_behind _ (s := .behind p) hsplit.symm rfl fun c hc => List.mem_takeWhile_imp hc
  have htrest : t.cursor.rest = '#' :: text := by
    rw [ht.cursor, Cursor.rest_drop]
    exact (congrArg _ hsplit.symm).trans List.drop_left
  have hallowed : commentAllowed t.fresh t.gap t.cursor = true := by
    simp [commentAllowed, ht.gap (.inr hgap)]
  have step : Passage.Step '#' t { t with cursor := t.cursor.next, open? := some t.cursor.offset } :=
    .hash rfl hallowed ht.closed
  obtain ⟨u, hu, hdone⟩ := Passage.exists_passes_inside (s := { t with
    cursor := t.cursor.next, open? := some t.cursor.offset }) rfl
      (by rw [step.rest htrest]; exact (List.forall_mem_cons.mp hall).2)
  rw [(ht.passes (.step htrest step hu)).after_eq]
  exact hdone

private theorem Cursor.Twin.beside (hp : p.Twin behind stop rows p') (hgap : atGap p.rest = true) :
    Beside behind stop rows p p' := by
  by_cases hmore : p'.rest = []
  · have hoff : p.offset = stop := by simpa [hmore, Text.size] using hp.offset
    refine .ended ?_ ?_ (hoff ▸ p.offset_le_pastComment)
    · simp [pastComment, Syntax.pastBlanks, hmore, Cursor.rest_drop]
    · have hlen := Layout.length_rest_after p' 0
      rw [hmore] at hlen
      exact List.eq_nil_of_length_eq_zero (Nat.le_zero.mp hlen)
  obtain ⟨hb, hbmore⟩ := hp.pastBlanks hmore
  obtain ⟨hm, hlt⟩ | ⟨hm, hle, hhash, hall⟩ := hb.commentLength hbmore
  · refine .inside hb hm ?_ ?_
    · rw [pastComment, hm]
      exact hb.drop (.inl hlt.le)
    · rw [pastComment, Cursor.rest_drop, Ne, List.drop_eq_nil_iff]
      omega
  · have hwhite : p'.rest.takeWhile isWhite ≠ [] := by
      intro hnil
      rw [Syntax.pastBlanks, Cursor.rest_drop, hnil] at hhash
      obtain ⟨r, hr⟩ := List.head?_eq_some_iff.mp hhash
      rw [List.length_nil, List.drop_zero] at hr
      rw [hp.rest, hr] at hgap
      cases hgap
    refine .ended ?_ (Layout.after_done_of_comment hwhite hhash hall) ?_
    · rw [pastComment, Cursor.rest_drop, hm, List.drop_length]
    · have hend := (hb.drop (.inl (Nat.le_refl (Syntax.pastBlanks p').rest.length))).offset
      rw [Cursor.rest_drop, List.drop_length] at hend
      have hadd : pastComment p = ((Syntax.pastBlanks p).drop (Syntax.pastBlanks p').rest.length).drop
          (Syntax.commentLength (Syntax.pastBlanks p) - (Syntax.pastBlanks p').rest.length) := by
        rw [Cursor.drop_add, Nat.add_sub_cancel' hle, pastComment]
      rw [hadd, ← hend]
      exact Cursor.offset_le_drop _ _

/-- Where the piece ends in the row of the header, there are no lines in it. -/
private theorem ScalarBehind.ended (h : ScalarBehind stated floor header p content u)
    (header' : Tree)
    (hp : p.Twin behind stop rows p') (hrow : (pastComment p').rest = []) (hdone : (Layout.after p').rest = [])
    (hpast : stop ≤ (pastComment p).offset) :
    ∃ content' u', ScalarBehind stated floor header' p' content' u' ∧ content'.kind = .blockScalar ∧
      Layout.Twin behind stop rows u u' ∧ u'.rest = [] := by
  have hafter : Layout.Past stop (.after p) (.after p') :=
    (Layout.after_twin hp).resolve_left fun hlive => hlive.more hdone
  have hu : stop ≤ u.cursor.offset := by
    rcases h.onward.2 with rfl | hle
    · exact hafter.past
    · exact hpast.trans hle
  cases houtdented : isOutdented stated floor p' with
  | true => exact ⟨_, _, .outdented houtdented, rfl, .inr ⟨hdone, hu, hafter.quiet⟩, hdone⟩
  | false =>
    have hlines : BlockScalar.lines (BlockScalar.textFloor stated floor (pastComment p').rest) (pastComment p').rest =
        .ok (0, none) := by
      rw [hrow]
      rfl
    have hover : Layout.after (pastComment p') = ⟨pastComment p', (pastComment p').offset, false, 0, false, []⟩ :=
      (Layout.Passage.Passes.halt (.done hrow)).after_eq
    have hempty : ScalarBehind stated floor header' p' _ _ := .empty houtdented hlines
    rw [hover] at hempty
    exact ⟨_, _, hempty, rfl, .inr ⟨hrow, hu, rfl⟩, hrow⟩

/-- Lines that are no token behind the piece end inside it. -/
private theorem BlockScalar.lines_length_lt {k f : Nat} (hq : q.Twin behind stop rows q')
    (hmore : q'.rest ≠ [])
    (h : lines floor q.rest = .ok (k, some f)) (hclear : (q.drop k).offset < stop ∨ stop ≤ (q.drop f).offset) :
    k < q'.rest.length := by
  rcases hclear with hlt | hle
  · exact hq.lt_length hlt
  -- a line that begins behind the piece has only blank rows before it
  exfalso
  obtain ⟨hf, -⟩ | ⟨g, hg, hblank⟩ := lines_behindGap h
  · cases hf
  cases hg
  have hlast := hq.notBlank _ (List.getLast?_eq_some_getLast hmore)
  have hmem : q'.rest.getLast hmore ∈ q.rest.take f := by
    rw [hq.rest, List.take_append, List.take_of_length_le (hq.length_le_of_le hle)]
    exact List.mem_append_left _ (List.getLast_mem hmore)
  rcases hblank _ hmem with hb | hb <;> simp [hlast] at hb

/-- Where the piece goes on behind the row of the header, it has the same lines. -/
private theorem ScalarBehind.inside (h : ScalarBehind stated floor header p content u)
    (header' : Tree)
    (hp : p.Twin behind stop rows p') (hb : (pastBlanks p).Twin behind stop rows (pastBlanks p'))
    (hm : commentLength (pastBlanks p) = commentLength (pastBlanks p'))
    (hq : (pastComment p).Twin behind stop rows (pastComment p')) (hmore : (pastComment p').rest ≠ [])
    (hc : Clear stop [content]) :
    ∃ content' u', ScalarBehind stated floor header' p' content' u' ∧ content'.kind = .blockScalar ∧
      Layout.Twin behind stop rows u u' ∧ u'.rest.length ≤ p'.rest.length := by
  have hfloor : BlockScalar.textFloor stated floor (pastComment p).rest =
      BlockScalar.textFloor stated floor (pastComment p').rest := by
    rw [hq.rest]
    exact BlockScalar.textFloor_append hmore hq.notBlank
  have houtdented : isOutdented stated floor p = isOutdented stated floor p' := by
    rw [isOutdented, isOutdented, hfloor, hb.column, hm]
  have hlen : (pastComment p').rest.length ≤ p'.rest.length := by
    rw [pastComment, Cursor.rest_drop, pastBlanks, Cursor.rest_drop, List.length_drop, List.length_drop]
    omega
  have after_le (k : Nat) : (Layout.after ((pastComment p').drop k)).rest.length ≤ p'.rest.length :=
    (Layout.length_rest_after _ k).trans (by omega)
  have read {k : Nat} {f : Option Nat} (hk : k < (pastComment p').rest.length)
      (hlines : BlockScalar.lines (BlockScalar.textFloor stated floor (pastComment p).rest) (pastComment p).rest =
        .ok (k, f)) :
      BlockScalar.lines (BlockScalar.textFloor stated floor (pastComment p').rest) (pastComment p').rest =
        .ok (k, f) := by
    rw [hfloor, hq.rest] at hlines
    exact BlockScalar.lines_append hmore (hq.ends hmore) hq.notBlank hk hlines
  cases h with
  | outdented outdented =>
    exact ⟨_, _, .outdented (houtdented ▸ outdented), rfl, Layout.after_twin hp, Layout.length_rest_after p' 0⟩
  | @text k f fits lines =>
    have hclear := hc (.blockText, ⟨((pastComment p).drop f).offset, ((pastComment p).drop k).offset⟩) (by simp)
    rw [if_neg (by simp [Node.isToken])] at hclear
    have hk := BlockScalar.lines_length_lt hq hmore lines hclear
    exact ⟨_, _, .text (houtdented ▸ fits) (read hk lines), rfl, Layout.after_twin (hq.drop (.inl hk.le)), after_le k⟩
  | @empty k fits lines =>
    obtain rfl : k = 0 := by
      obtain ⟨-, hk⟩ | ⟨g, hg, -⟩ := BlockScalar.lines_behindGap lines
      · exact hk
      · cases hg
    refine ⟨_, _, .empty (houtdented ▸ fits) (read (List.length_pos_of_ne_nil hmore) lines), rfl, ?_, after_le 0⟩
    exact (Layout.after_twin hq).imp (fun h => ⟨h.cursor, h.more, h.fresh, h.leading, h.tabbed, h.quiet⟩)
      fun h => ⟨h.done, h.past, h.quiet⟩

private theorem ScalarBehind.followed (h : ScalarBehind stated floor header p content u)
    (header' : Tree)
    (hp : p.Twin behind stop rows p') (hgap : atGap p.rest = true) (hc : Clear stop [content]) :
    ∃ content' u', ScalarBehind stated floor header' p' content' u' ∧ content'.kind = .blockScalar ∧
      Layout.Twin behind stop rows u u' ∧ u'.rest.length ≤ p'.rest.length := by
  cases hp.beside hgap with
  | inside blanks comment row more => exact h.inside header' hp blanks comment row more hc
  | ended row done past =>
    obtain ⟨content', u', hread, hk, htwin, hover⟩ := h.ended header' hp row done past
    exact ⟨content', u', hread, hk, htwin, by simp [hover]⟩

private theorem BlockScalar.atGap_of_header? {rest : List Char} {stated : Option Nat}
    (h : header? rest = some (n, stated)) : atGap (rest.drop n) = true := by
  rcases rest with _ | ⟨c, rest⟩
  · cases h
  · simp only [header?] at h
    split at h
    · split at h <;> cases h
      assumption
    · cases h

theorem blockScalar_followed (hlive : Layout.Live behind stop rows s s') (hi : i'.floor = i.floor)
    (h : blockScalar i s = .ok (content, u)) (hc : Clear stop [content]) :
    FollowsAs behind stop rows s' u content (blockScalar i' s') := by
  obtain ⟨n, stated, hheader, h⟩ := blockScalar_eq_ok.mp h
  have hr : s.rest ≠ [] := by simp [hlive.rest, hlive.more]
  have hn := BlockScalar.header?_ne_zero hheader
  obtain ⟨⟨ts, rfl⟩, -⟩ := h.onward
  have hread : (s.cursor.drop n).offset ≤ stop := by
    rw [clear_node, ← List.singleton_append, clear_append] at hc
    exact hc.1.1.leaf hr hn (by simp)
  have hheader' : BlockScalar.header? s'.rest = some (n, stated) := by
    rw [hlive.rest] at hheader
    rcases hlive.cursor.length_le hread with hle | rfl
    · exact BlockScalar.header?_append hheader hle
    · rwa [List.append_nil] at hheader
  have hgap : atGap (s.cursor.drop n).rest = true := by
    rw [Cursor.rest_drop]
    exact BlockScalar.atGap_of_header? hheader
  obtain ⟨content', u', hbehind, hk, htwin, hle⟩ := h.followed (.leaf .mark (s'.cursor.spanOf n))
    (hlive.cursor.drop (hlive.cursor.length_le hread)) hgap hc
  refine ⟨content', u', blockScalar_eq_ok.mpr ⟨n, stated, hheader', hi ▸ hbehind⟩, hk, hbehind.hasFault rfl, htwin,
    Nat.lt_of_le_of_lt hle ?_⟩
  rw [Cursor.rest_drop, List.length_drop]
  have hpos : 0 < s'.rest.length := List.length_pos_of_ne_nil hlive.more
  exact Nat.sub_lt hpos (Nat.pos_of_ne_zero hn)

end YamlOutline.Syntax
