import YamlOutline.Proofs.Reparse.Twins

/-! Nodes inside brackets, read twice: with the text around them and without. -/

namespace YamlOutline.Syntax
open Text (size)
variable {cs behind : List Char} {stop rows n m : Nat} {s s' t u : Layout} {i i' : Indent}
  {rules : Rules} {ts us : List Tree} {content : Tree}

/-! ### Rows that are indented less -/

private theorem Outdented.append {inFlow : Bool} {floor : Nat} (h : Outdented inFlow floor cs)
    (behind : List Char) :
    Outdented inFlow floor (cs ++ behind) := by
  obtain ⟨column, blanks, c, r, rfl, hfolds, hlt, hn, hc, hp, hcolon⟩ := h
  refine ⟨column, blanks, c, r ++ behind, by simp, hfolds, hlt, hn, hc, hp, fun h => ?_⟩
  have hhead := hcolon h
  cases r with
  | nil => cases hhead
  | cons d r => exact hhead

namespace Layout

/-- Whatever was passed before, a line break begins a row. -/
private theorem Passage.passes_of_break {s : Passage} (before : List Char) {b : Char}
    {r : List Char}
    (hs : s.cursor.rest = before ++ b :: r) (closed : s.open? = none)
    (hbefore : ∀ c ∈ before, (isWhite c || isBreak c) = true) (hb : isBreak b = true)
    (h : Passes ⟨s.cursor.drop (before.length + 1), true, true, 0, false, none, s.done⟩ u) : Passes s u := by
  induction before generalizing s with
  | nil =>
    refine .step hs (.fold hb) ?_
    rwa [closed, pass.close, List.append_nil]
  | cons c before ih =>
    obtain ⟨hc, hbefore⟩ := List.forall_mem_cons.mp hbefore
    have onward {t : Passage} (step : Step c s t) (hclosed : t.open? = none) (hdone : t.done = s.done) :
        Passes s u := by
      refine .step hs step (ih (step.rest hs) hclosed hbefore ?_)
      rwa [step.cursor, hdone]
    by_cases hbreak : isBreak c = true
    · exact onward (.fold hbreak) rfl (by rw [closed, pass.close, List.append_nil])
    · obtain rfl | rfl : c = ' ' ∨ c = '\t' := by simpa [isWhite, hbreak] using hc
      · exact onward (.space rfl closed) closed rfl
      · exact onward (.tab rfl closed) closed rfl

/-- A row that is indented less, behind a plain scalar that it would go on with. -/
private theorem after_outdented {p : Cursor} {inFlow : Bool} {floor : Nat}
    (h : Outdented inFlow floor p.rest) :
    (after p).fresh = true ∧ (after p).leading < floor ∧
      ∃ c r, (after p).rest = c :: r ∧ isPlain inFlow c = true := by
  obtain ⟨column, blanks, c, r, hr, ⟨before, b, after', rfl, hbefore, hb, hafter, rfl⟩, hlt, hnull,
    hhash, hplain, -⟩ := h
  have hvisible : isVisible c = true := (Bool.and_eq_true_iff.mp hplain).1
  have hrest : (p.drop (before.length + 1)).rest = after' ++ c :: r := by
    rw [Cursor.rest_drop, hr]
    simp
  obtain ⟨t, ht⟩ := Passage.exists_behind after' (s := .first (p.drop (before.length + 1))) hrest rfl hafter
  have htrest : t.cursor.rest = c :: r := by
    rw [ht.cursor, Cursor.rest_drop]
    exact (congrArg _ hrest).trans List.drop_left
  have hopens : t.opens c = true := by
    simp [Passage.opens, row_of_isVisible hvisible, hnull, hhash]
  have hbreak : p.rest = before ++ b :: (after' ++ c :: r) := by
    rw [hr, List.append_assoc, List.cons_append]
  have hpasses : Passage.Passes (.behind p) t.out :=
    Passage.passes_of_break before hbreak rfl hbefore hb (ht.passes (.halt (.token htrest hopens ht.closed)))
  have hleading : t.leading ≤ 0 + after'.length := ht.leading
  rw [hpasses.after_eq]
  exact ⟨ht.fresh, show t.leading < floor by omega, c, r, htrest, hplain⟩

end Layout

/-! ### Rules -/

/-- No leaf is cut in two where the piece ends, and all tokens are part of the piece. -/
def Clear (stop : Nat) (ts : List Tree) : Prop :=
  ∀ l ∈ Tree.leavesList ts,
    if Node.isToken l.1 l.2 then l.2.stop ≤ stop else l.2.stop < stop ∨ stop ≤ l.2.start

@[simp] theorem clear_nil : Clear stop [] := by
  simp [Clear]

@[simp] theorem clear_append : Clear stop (ts ++ us) ↔ Clear stop ts ∧ Clear stop us := by
  simp [Clear, or_imp, forall_and]

@[simp] theorem clear_node {k : Kind} : Clear stop (.node k us :: ts) ↔ Clear stop us ∧ Clear stop ts := by
  simp [Clear, or_imp, forall_and]

theorem Clear.leaf {k : Kind} (hc : Clear stop [.leaf k (s.cursor.spanOf n)]) (hr : s.rest ≠ [])
    (hn : n ≠ 0) (hk : k ≠ .comment ∧ k ≠ .blockText) : (s.cursor.drop n).offset ≤ stop := by
  have hl := hc (k, s.cursor.spanOf n) (by simp)
  rwa [if_pos (Layout.isToken_spanOf hr hn hk)] at hl

/-- The other reading goes on in the same way: to the same place, without a fault, and without
coming back to what it has read. -/
def Follows (behind : List Char) (stop rows : Nat) (s' t : Layout) (step : Step) : Prop :=
  ∃ ts' t', step = .ok (ts', t') ∧ Tree.hasFaultList ts' = false ∧
    Layout.Twin behind stop rows t t' ∧ t'.rest.length ≤ s'.rest.length

/-- The same for a single node. -/
def FollowsAs (behind : List Char) (stop rows : Nat) (s' u : Layout) (content : Tree)
    (step : Except Fault (Tree × Layout)) : Prop :=
  ∃ content' u', step = .ok (content', u') ∧ content'.kind = content.kind ∧
    content'.hasFault = false ∧ Layout.Twin behind stop rows u u' ∧ u'.rest.length < s'.rest.length

namespace Layout

theorem length_rest_after (p : Cursor) (n : Nat) : (after (p.drop n)).rest.length ≤ p.rest.length - n := by
  obtain ⟨u, hu, he⟩ := after_passes (p.drop n)
  have hle := hu.length_rest_le
  rw [he, ← List.length_drop, ← Cursor.rest_drop]
  exact hle

theorem length_rest_after_lt (hr : s.rest ≠ []) (hn : n ≠ 0) :
    (after (s.cursor.drop n)).rest.length < s.rest.length := by
  have h := length_rest_after s.cursor n
  have : 0 < s.rest.length := List.length_pos_of_ne_nil hr
  change _ ≤ s.rest.length - n at h
  omega

/-- A token in both readings. -/
theorem Live.token (h : Live behind stop rows s s') {k : Kind} (hc : Clear stop (s.token k n).1)
    (hn : n ≠ 0) (hk : k ≠ .comment ∧ k ≠ .blockText) (hf : Tree.isFault (.leaf k ⟨0, 0⟩) = false) :
    Twin behind stop rows (s.token k n).2 (s'.token k n).2 ∧
      Tree.hasFaultList (s'.token k n).1 = false ∧
      (s'.token k n).2.rest.length < s'.rest.length := by
  have hr : s.rest ≠ [] := by simp [h.rest, h.more]
  rw [Layout.token, clear_append] at hc
  refine ⟨h.read (hc.2.leaf hr hn hk), ?_, length_rest_after_lt h.more hn⟩
  simpa [Layout.token, h.quiet, Tree.isFault, Tree.kind] using hf

end Layout

/-- The rules of some level, which the rules of any level that is high enough for the piece follow. -/
structure Rules.Followed (cs behind : List Char) (stop rows : Nat) (rules : Rules) : Prop where
  sound : rules.Sound cs
  entries : ∀ {isMapping i i' s s' ts t m}, s.Sound cs → Layout.Twin behind stop rows s s' →
    i'.floor ≤ i.floor → rules.entries isMapping i s = .ok (ts, t) → Tree.hasFaultList ts = false →
    Clear stop ts → s'.rest.length < m →
    Follows behind stop rows s' t ((Rules.ofDepth m).entries isMapping i' s')

private theorem scalar_followed {k : Kind} (h : Layout.Live behind stop rows s s')
    (hc : Clear stop [.leaf k (s.cursor.spanOf n)]) (hn : n ≠ 0) (hk : k ≠ .comment ∧ k ≠ .blockText)
    (hf : Tree.hasFault (.leaf k (s.cursor.spanOf n)) = false) :
    FollowsAs behind stop rows s' (.after (s.cursor.drop n)) (.leaf k (s.cursor.spanOf n))
      (.ok (.leaf k (s'.cursor.spanOf n), .after (s'.cursor.drop n))) := by
  have hr : s.rest ≠ [] := by simp [h.rest, h.more]
  refine ⟨_, _, rfl, rfl, ?_, h.read (hc.leaf hr hn hk), Layout.length_rest_after_lt h.more hn⟩
  simpa [Tree.isFault, Tree.kind] using hf

theorem Layout.Live.settle (h : Layout.Live behind stop rows s s') :
    Layout.Live behind stop rows s.settle s'.settle :=
  ⟨h.cursor, h.more, h.fresh, h.leading, h.tabbed, rfl⟩

theorem collection_followed (hrules : rules.Followed cs behind stop rows) {isMapping : Bool}
    (hs : s.Sound cs) (hlive : Layout.Live behind stop rows s s') (hi : i'.floor ≤ i.floor)
    (h : collection rules isMapping i s = .ok (content, u)) (hf : content.hasFault = false)
    (hc : Clear stop [content]) (hm : s'.rest.length ≤ m) :
    FollowsAs behind stop rows s' u content (collection (.ofDepth m) isMapping i' s') := by
  obtain ⟨rest, hentries, rfl⟩ := collection_eq_ok.mp h
  simp only [Tree.hasFault_node, Tree.hasFaultList_append, Bool.or_eq_false_iff] at hf
  simp only [clear_node, clear_append] at hc
  obtain ⟨htwin, hquiet, hlen⟩ := hlive.settle.token hc.1.1 Nat.one_ne_zero (by simp) rfl
  have hlen : (s'.settle.token .mark 1).2.rest.length < s'.rest.length := hlen
  have hopen := Layout.mark_adds hs.settle 1
  obtain ⟨rest', v', hrest', hf', ht, hle⟩ := hrules.entries (m := m) hopen.sound htwin hi hentries
    hf.2.2 hc.1.2 (by omega)
  refine ⟨_, v', collection_eq_ok.mpr ⟨rest', hrest', rfl⟩, rfl, ?_, ht, by omega⟩
  cases isMapping <;> simp [Tree.isFault, Tree.kind, hquiet, hf']

theorem quoted_followed {style : Quoted.Style} (hlive : Layout.Live behind stop rows s s')
    (hi : i'.floor ≤ i.floor) (h : quoted style i s = .ok (content, u)) (hc : Clear stop [content]) :
    FollowsAs behind stop rows s' u content (quoted style i' s') := by
  obtain ⟨n, hn, rfl, rfl⟩ := quoted_eq_ok.mp h
  have hr : s.rest ≠ [] := by simp [hlive.rest, hlive.more]
  have hn0 := Quoted.length_ne_zero hn
  have hkind : style.kind ≠ .comment ∧ style.kind ≠ .blockText := by cases style <;> decide
  have hread := hc.leaf hr hn0 hkind
  have hn' : Quoted.length style i'.floor s'.rest = .ok n := by
    refine Quoted.length_of_floor_le hi ?_
    rw [hlive.rest] at hn
    rcases hlive.cursor.length_le hread with hle | rfl
    · exact Quoted.length_append hlive.ends hlive.more hn hle
    · rwa [List.append_nil] at hn
  rw [quoted_eq_ok.mpr ⟨n, hn', rfl, rfl⟩]
  exact scalar_followed hlive hc hn0 hkind (by cases style <;> simp [Tree.isFault, Tree.kind, Quoted.Style.kind])

/-- The other reading may ask for less indentation where the next token `u` stands far enough to the
right, or is a bracket that no plain scalar takes. -/
def Eased (inFlow : Bool) (i i' : Indent) (u : Layout) : Prop :=
  i'.floor = i.floor ∨
    i'.floor ≤ i.floor ∧ (u.within i = true ∨ inFlow = true ∧ u.atClosing = true)

private theorem Eased.le {inFlow : Bool} (h : Eased inFlow i i' u) : i'.floor ≤ i.floor :=
  h.elim Eq.le And.left

/-- What follows a plain scalar cannot be a row that only its indentation keeps out of the scalar. -/
theorem plain_length_followed {inFlow : Bool} (hlive : Layout.Live behind stop rows s s')
    (hi : Eased inFlow i i' (.after (s.cursor.drop n)))
    (hn : Plain.length inFlow i.floor s.column s.rest = n) (hread : (s.cursor.drop n).offset ≤ stop) :
    Plain.length inFlow i'.floor s'.column s'.rest = n := by
  have hpiece : Plain.length inFlow i.floor s'.column s'.rest = n := by
    rw [← hlive.column]
    rw [hlive.rest] at hn
    rcases hlive.cursor.length_le hread with hle | rfl
    · rw [Plain.length_append hlive.ends hlive.more (hn ▸ hle), hn]
    · rwa [List.append_nil] at hn
  rcases hi with hi | ⟨hle, hnext⟩
  · rwa [hi]
  rcases Plain.length_of_floor_le inFlow hle s'.column s'.rest with he | hout
  · rwa [he]
  rw [hpiece] at hout
  have hout : Outdented inFlow i.floor (s.cursor.drop n).rest := by
    rw [Cursor.rest_drop]
    change Outdented inFlow i.floor (s.rest.drop n)
    rw [hlive.rest]
    rcases hlive.cursor.length_le hread with hle | rfl
    · have hle : n ≤ s'.rest.length := hle
      rw [List.drop_append_of_le_length hle]
      exact hout.append behind
    · rwa [List.append_nil]
  obtain ⟨hfresh, hleading, c, r, hr, hplain⟩ := Layout.after_outdented hout
  rcases hnext with hwithin | ⟨rfl, hclosing⟩
  · simp [Layout.within, hfresh] at hwithin
    omega
  · exfalso
    simp only [Layout.atClosing, Layout.at?, hr, List.head?_cons, Bool.or_eq_true, beq_iff_eq,
      Option.some.injEq] at hclosing
    rcases hclosing with rfl | rfl <;> cases hplain

/-- The rest of a collection, or what stands between it and the next key, holds after a node. -/
theorem flowContent_followed (hrules : rules.Followed cs behind stop rows) {inFlow : Bool}
    (hs : s.Sound cs) (hlive : Layout.Live behind stop rows s s')
    (hi : Eased inFlow i i' u)
    (h : flowContent rules inFlow i s = .ok (content, u)) (hf : content.hasFault = false)
    (hc : Clear stop [content]) (hm : s'.rest.length ≤ m) :
    FollowsAs behind stop rows s' u content (flowContent (.ofDepth m) inFlow i' s') := by
  have hle := hi.le
  have hr : s.rest ≠ [] := by simp [hlive.rest, hlive.more]
  cases flowContent_eq_ok.mp h with
  | collection isMapping bracket read =>
    rw [flowContent_of_bracket isMapping (hlive.at? _ ▸ bracket)]
    exact collection_followed hrules hs hlive hle read hf hc hm
  | quoted style quote read =>
    rw [flowContent_of_quote style (hlive.at? _ ▸ quote)]
    exact quoted_followed hlive hle read hc
  | reference star name =>
    have hn0 := nameLength?_ne_zero name
    have hname := hlive.length nameLength?_append name (hc.leaf hr hn0 (by simp))
    rw [flowContent_of_star (hlive.at? _ ▸ star) hname]
    exact scalar_followed hlive hc hn0 (by simp) hf
  | plain begins length =>
    have hn0 : _ ≠ 0 := length ▸ Plain.length_ne_zero inFlow i.floor s.column s.rest
    have hread := hc.leaf hr hn0 (by simp)
    have hbegins : beginsPlain inFlow s' = true := by
      rwa [beginsPlain, hlive.atDocument, hlive.rest, Plain.begins_append inFlow hlive.ends hlive.more] at begins
    rw [flowContent_of_plain hbegins, plain_length_followed hlive hi length hread]
    exact scalar_followed hlive hc hn0 (by simp) hf

end YamlOutline.Syntax
