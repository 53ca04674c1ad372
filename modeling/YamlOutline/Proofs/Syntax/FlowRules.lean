import YamlOutline.Proofs.Syntax.FlowCases

/-! Nodes inside brackets, and scalars wherever they stand: what their rules add to the tree. -/

namespace YamlOutline.Syntax
variable {cs : List Char} {s t u : Layout} {before ts us : List Tree} {i : Indent} {rules : Rules}
  {content : Tree}

/-- The rules of some level, each of which adds to the tree what it reads. -/
structure Rules.Sound (cs : List Char) (rules : Rules) : Prop where
  level : ∃ n, rules = .ofDepth n
  entries : ∀ {isMapping i s ts t}, s.Sound cs → rules.entries isMapping i s = .ok (ts, t) →
    Tree.hasFaultList ts = false → Adds cs s [] ts t
  value : ∀ {i compact level} {p : Properties} {s ts t}, s.Sound cs → p.Sound cs →
    rules.value i compact level p s = .ok (ts, t) → Tree.hasFaultList ts = false →
    Adds cs s (p.before ++ p.trees) ts t ∧ (HasContent ts ∨ p.trees = [] ∧ t = s)
  items : ∀ {i s ts t}, s.Sound cs → rules.items i s = .ok (ts, t) →
    Tree.hasFaultList ts = false → Adds cs s [] ts t
  pairs : ∀ {i s ts t}, s.Sound cs → rules.pairs i s = .ok (ts, t) →
    Tree.hasFaultList ts = false → Adds cs s [] ts t
  documents : ∀ {bare s ts t}, s.Sound cs → rules.documents bare s = .ok (ts, t) →
    Tree.hasFaultList ts = false → Adds cs s [] ts t
  directives : ∀ {s ts t}, s.Sound cs → rules.directives s = .ok (ts, t) →
    Tree.hasFaultList ts = false → Adds cs s [] ts t ∧ HasContent ts

private theorem rest_ne_nil_of_beginsPlain {inFlow : Bool} (h : beginsPlain inFlow s = true) :
    s.rest ≠ [] := by
  intro hn
  simp [beginsPlain, Plain.begins, hn] at h

/-- A scalar or alias is one leaf. -/
private theorem Layout.scalar_adds {k : Kind} {n : Nat} (hs : s.Sound cs) (hr : s.rest ≠ [])
    (hn : n ≠ 0)
    (hk : k ≠ .comment ∧ k ≠ .blockText) :
    Adds cs s.settle [] [.leaf k (s.cursor.spanOf n)] (after (s.cursor.drop n)) ∧
      Begins s [.leaf k (s.cursor.spanOf n)] :=
  ⟨leaf_adds hs (genuine_leaf hr hn) hk.1, begins_leaf hr hn hk⟩

/-- With what tokens a node in flow style begins. -/
theorem flowContent_begin {inFlow : Bool} (h : flowContent rules inFlow i s = .ok (content, u)) :
    (∃ c ∈ ['[', '\x7b', '"', '\'', '*'], s.at? c = true) ∨ Plain.begins inFlow s.rest = true := by
  cases flowContent_eq_ok.mp h with
  | collection isMapping bracket => exact .inl ⟨_, by cases isMapping <;> simp, bracket⟩
  | quoted style quote => exact .inl ⟨_, by cases style <;> simp [Quoted.Style.quote], quote⟩
  | reference star => exact .inl ⟨_, by simp, star⟩
  | plain begins => exact .inr (Bool.and_eq_true_iff.mp begins).1

theorem Layout.atEnd_eq_false {c : Char} (h : s.at? c = true) (hc : isNull c = false) : s.atEnd = false := by
  cases hr : s.rest with
  | nil => simp [Layout.at?, hr] at h
  | cons d r =>
    obtain rfl : d = c := by simpa [Layout.at?, hr] using h
    simp only [Layout.atEnd, hr, hc]

private theorem Plain.isNull_of_begins {inFlow : Bool} {c : Char} {r : List Char}
    (h : begins inFlow (c :: r) = true) : isNull c = false := by
  rw [begins] at h
  split at h
  · rename_i hc
    simp only [Bool.or_eq_true, beq_iff_eq] at hc
    rcases hc with (rfl | rfl) | rfl <;> rfl
  · by_contra hnull
    rw [isVisible_eq_false_of_gap (by simp_all)] at h
    cases h

/-- There is no node where the text ends. -/
theorem flowContent_more {inFlow : Bool} (h : flowContent rules inFlow i s = .ok (content, u)) :
    s.atEnd = false := by
  rcases flowContent_begin h with ⟨c, hc, hat⟩ | hplain
  · refine Layout.atEnd_eq_false hat ?_
    simp only [List.mem_cons, List.not_mem_nil, or_false] at hc
    rcases hc with rfl | rfl | rfl | rfl | rfl <;> rfl
  · rw [Layout.atEnd]
    cases hr : s.rest with
    | nil => simp [hr, Plain.begins] at hplain
    | cons c r => exact Plain.isNull_of_begins (hr ▸ hplain)

private theorem collection_adds (hrules : rules.Sound cs) {isMapping : Bool} (hs : s.Sound cs)
    (hat : s.at? (if isMapping then '\x7b' else '[') = true)
    (h : collection rules isMapping i s = .ok (content, u)) (hf : content.hasFault = false) :
    Adds cs s.settle [] [content] u ∧ Begins s [content] := by
  obtain ⟨rest, hentries, rfl⟩ := collection_eq_ok.mp h
  simp only [Tree.hasFault_node, Tree.hasFaultList_append, Bool.or_eq_false_iff] at hf
  have hr := Layout.rest_ne_nil_of_at? hat
  have hmark := Layout.mark_adds hs.settle 1
  have hopen : Begins s.settle (s.settle.token .mark 1).1 :=
    Layout.token_begins hr Nat.one_ne_zero (by simp)
  have hbegins : Begins s ((s.settle.token .mark 1).1 ++ rest) := hopen.append
  have hall := hmark.append (hrules.entries hmark.sound hentries hf.2.2)
  obtain ⟨n, rfl⟩ := hrules.level
  have horigin := Origin.brackets n isMapping i s _ (hall.stands hs hbegins (by simp)) hat h
  exact ⟨hall.node hbegins.hasContent fun _ => horigin, hbegins.node⟩

private theorem quoted_adds {style : Quoted.Style} (hs : s.Sound cs) (hr : s.rest ≠ [])
    (h : quoted style i s = .ok (content, u)) :
    Adds cs s.settle [] [content] u ∧ Begins s [content] := by
  obtain ⟨n, hn, rfl, rfl⟩ := quoted_eq_ok.mp h
  exact Layout.scalar_adds hs hr (Quoted.length_ne_zero hn) (by cases style <;> simp [Quoted.Style.kind])

theorem flowContent_adds (hrules : rules.Sound cs) {inFlow : Bool} (hs : s.Sound cs)
    (h : flowContent rules inFlow i s = .ok (content, u)) (hf : content.hasFault = false) :
    Adds cs s.settle [] [content] u ∧ Begins s [content] := by
  cases flowContent_eq_ok.mp h with
  | collection isMapping bracket read => exact collection_adds hrules hs bracket read hf
  | quoted style quote read => exact quoted_adds hs (Layout.rest_ne_nil_of_at? quote) read
  | reference star name =>
    exact Layout.scalar_adds hs (Layout.rest_ne_nil_of_at? star) (nameLength?_ne_zero name) (by simp)
  | plain begins length =>
    subst length
    exact Layout.scalar_adds hs (rest_ne_nil_of_beginsPlain begins) (Plain.length_ne_zero _ _ _ _) (by simp)

theorem Properties.Group.grown {p : Properties} {goesOn : Layout → Bool} (hs : s.Sound cs)
    (hat : s.atProperty = true) (h : Group goesOn s p t) : Grown cs {} s p t := by
  cases h with
  | one read => exact read_grown hs none_sound hat read
  | two first more second => exact (read_grown hs none_sound hat first).read (Bool.and_eq_true_iff.mp more).1 second

theorem Properties.Group.decorated {p : Properties} {goesOn : Layout → Bool} (hs : s.Sound cs)
    (hat : s.atProperty = true) (h : Group goesOn s p t) : p.Decorated := by
  cases h with
  | one read => exact read_decorations hs read none_decorated
  | two first _ second =>
    have hs₁ := (read_grown hs none_sound hat first).adds.sound
    exact read_decorations hs₁ second (read_decorations hs first none_decorated)

theorem flowNode_properties_grown {p : Properties} (hs : s.Sound cs)
    (h : flowNode.properties i s = .ok (p, t)) :
    p.Sound cs ∧ Adds cs s [] (p.before ++ p.trees) t ∧ (p = {} ∧ t = s ∨ Begins s (p.before ++ p.trees)) := by
  cases flowProperties_eq_ok.mp h with
  | none => exact ⟨Properties.none_sound, .refl hs allGenuine_nil, .inl ⟨rfl, rfl⟩⟩
  | some fit read =>
    have hgrown := read.grown hs (Bool.and_eq_true_iff.mp fit).1
    exact ⟨hgrown.sound, hgrown.adds, .inr (hgrown.begins.mono (by simp))⟩

theorem flowNode_adds (hrules : rules.Sound cs) {endsItself : Bool} (hs : s.Sound cs)
    (h : flowNode rules i s = .ok (ts, endsItself, u)) (hf : Tree.hasFaultList ts = false) :
    Adds cs s [] ts u ∧ Begins s ts := by
  cases flowNode_eq_ok.mp h with
  | bare properties some =>
    obtain ⟨hp, hadds, hbegins⟩ := flowNode_properties_grown hs properties
    have hbegins := hbegins.resolve_left fun h => by simp [h.1] at some
    exact ⟨(hadds.bare hp).1, hbegins.mono (Properties.leavesList_bare ▸ List.Subset.refl _)⟩
  | wrapped properties _ read =>
    obtain ⟨hp, hadds, hbegins⟩ := flowNode_properties_grown hs properties
    obtain ⟨hc, hcc⟩ := flowContent_adds hrules hadds.sound read (Properties.hasFault_of_wrap hf)
    refine ⟨Adds.wrap (hadds.trans (hc.afterComments hadds.sound hadds.genuine)) hcc.hasContent rfl, ?_⟩
    rcases hbegins with ⟨-, rfl⟩ | hbegins
    · exact hcc.wrap
    · exact hbegins.mono (by simp [Properties.leavesList_wrap])

theorem Layout.rest_ne_nil_of_atFlowColon (h : s.atFlowColon = true) : s.rest ≠ [] := by
  intro hn
  simp [atFlowColon, hn] at h

theorem flowValue_adds (hrules : rules.Sound cs) {isMapping : Bool} (hs : s.Sound cs)
    (hr : s.rest ≠ []) (h : flowValue rules isMapping i s = .ok (ts, u))
    (hf : Tree.hasFaultList ts = false) : Adds cs s [] ts u ∧ Begins s ts := by
  have hcolon := Layout.colon_adds hs
  have hbegins : Begins s (s.token .valueMark 1).1 := Layout.token_begins hr Nat.one_ne_zero (by simp)
  cases (flowValue_eq_ok hf).mp h with
  | none => exact ⟨hcolon, hbegins⟩
  | node read =>
    rw [Tree.hasFaultList_append, Bool.or_eq_false_iff] at hf
    obtain ⟨hvalue, -⟩ := flowNode_adds hrules hcolon.sound read hf.2
    exact ⟨hcolon.append hvalue, hbegins.append⟩

theorem flowEntry_adds (hrules : rules.Sound cs) {isMapping anyRow mustPair isPair : Bool}
    (hs : s.Sound cs) (h : flowEntry rules isMapping anyRow mustPair i s = .ok (ts, isPair, u))
    (hf : Tree.hasFaultList ts = false) : Adds cs s [] ts u ∧ Begins s ts := by
  cases flowEntry_eq_ok.mp h with
  | keyless colon read =>
    simp only [Bool.and_eq_true, and_assoc] at colon
    exact flowValue_adds hrules hs (Layout.rest_ne_nil_of_atFlowColon colon.1) read hf
  | @pair key value endsItself t _ node colon _ read =>
    have hr : t.rest ≠ [] := by
      cases endsItself
      · exact Layout.rest_ne_nil_of_atFlowColon colon
      · exact Layout.rest_ne_nil_of_at? colon
    rw [Tree.hasFaultList_append, Bool.or_eq_false_iff] at hf
    obtain ⟨hk, hkc⟩ := flowNode_adds hrules hs node hf.1
    obtain ⟨hv, -⟩ := flowValue_adds hrules hk.sound hr read hf.2
    exact ⟨hk.append hv, hkc.append⟩
  | node read => exact flowNode_adds hrules hs read hf

theorem flowItem_adds (hrules : rules.Sound cs) {isMapping : Bool} (hs : s.Sound cs)
    (h : flowItem rules isMapping i s = .ok (ts, u)) (hf : Tree.hasFaultList ts = false) :
    Adds cs s [] ts u := by
  have hcomments {us : List Tree} {t : Layout} (h : Adds cs s.settle [] us t) :
      Adds cs s [] (s.comments ++ us) t := by
    simpa using h.afterComments hs allGenuine_nil
  have hpair {us : List Tree} (hadds : Adds cs s.settle [] us u) (hbegins : Begins s us)
      (h : flowItem rules isMapping i s = .ok (s.comments ++ [.node .flowPair us], u)) :
      Adds cs s [] (s.comments ++ [.node .flowPair us]) u := by
    obtain ⟨n, rfl⟩ := hrules.level
    have hstands := Adds.stands (s := s.settle) (t := .node .flowPair us) hadds hs.settle hbegins
      (Tree.leaves_node _ _)
    exact hcomments (hadds.node hbegins.hasContent fun _ =>
      .flowPair n isMapping i s.settle u hstands rfl us rfl (flowItem_settle.mp h))
  obtain ⟨us, rfl, hitem⟩ := flowItem_eq_ok.mp h
  rw [Tree.hasFaultList_append, Bool.or_eq_false_iff] at hf
  have hmark := Layout.mark_adds hs.settle 1
  have hbegins (hat : (s.settle.atMark '?' && s.settle.within i) = true) : Begins s (s.settle.token .mark 1).1 :=
    Layout.token_begins (s := s.settle) (Layout.rest_ne_nil_of_atMark (Bool.and_eq_true_iff.mp hat).1)
      Nat.one_ne_zero (by simp)
  cases hitem with
  | mark question => exact hpair hmark (hbegins question) h
  | marked question read =>
    simp only [Tree.hasFaultList_cons, Tree.hasFault_node, Tree.hasFaultList_append, Bool.or_eq_false_iff] at hf
    obtain ⟨hp, -⟩ := flowEntry_adds hrules hmark.sound read hf.2.1.2.2
    exact hpair (hmark.append hp) (hbegins question).append h
  | @entry parts isPair _ _ read =>
    have hparts : Tree.hasFaultList parts = false := by
      cases isPair
      · exact hf.2
      · simpa [Tree.isFault, Tree.kind] using hf.2
    obtain ⟨hp, hpc⟩ := flowEntry_adds hrules hs.settle read hparts
    cases isPair
    · exact hcomments hp
    · exact hpair hp hpc h

private theorem flowClosing_adds {isMapping : Bool} (hs : s.Sound cs)
    (h : flowClosing isMapping i s = some (ts, u)) : Adds cs s [] ts u := by
  obtain ⟨-, -, h⟩ := flowClosing_eq_some.mp h
  cases h
  exact Layout.mark_adds hs 1

theorem flowEntries_adds (hrules : rules.Sound cs) {isMapping : Bool} (hs : s.Sound cs)
    (h : flowEntries rules isMapping i s = .ok (ts, u)) (hf : Tree.hasFaultList ts = false) :
    Adds cs s [] ts u := by
  cases (flowEntries_eq_ok hf).mp h with
  | closed closing => exact flowClosing_adds hs closing
  | comma _ read _ more =>
    simp only [Tree.hasFaultList_append, Bool.or_eq_false_iff] at hf
    have hadds := flowItem_adds hrules hs read hf.1.1
    have hcomma := hadds.append (Layout.mark_adds hadds.sound 1)
    exact hcomma.append (hrules.entries hcomma.sound more hf.2)
  | last _ read closing =>
    rw [Tree.hasFaultList_append, Bool.or_eq_false_iff] at hf
    have hadds := flowItem_adds hrules hs read hf.1
    exact hadds.append (flowClosing_adds hadds.sound closing)

end YamlOutline.Syntax
