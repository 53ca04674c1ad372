import YamlOutline.Proofs.Syntax.BlockCases
import YamlOutline.Proofs.Syntax.BlockScalars

/-! Nodes that are laid out by indentation: what their rules add to the tree. -/

namespace YamlOutline.Syntax
variable {cs : List Char} {s t u : Layout} {before key ts us : List Tree} {i j : Indent}
  {rules : Rules} {content : Tree} {p q : Properties} {compact level : Bool}

/-! ### Keys and pairs -/

theorem rowProperties_grown {cs : List Char} {s t : Layout} {p : Properties} (hs : s.Sound cs)
    (h : rowProperties s = .ok (p, t)) :
    p.Sound cs ∧ p.before = [] ∧
      (s.atProperty = true ∨ s.comments = [] → Adds cs s.settle [] p.trees t) ∧
      (s.atProperty = true → Begins s p.trees) := by
  cases rowProperties_eq_ok.mp h with
  | none unfit =>
    refine ⟨Properties.none_sound, rfl, fun hc => ?_, fun hat => by simp [unfit] at hat⟩
    rw [Layout.settle_eq (hc.resolve_left (by simp [unfit]))]
    exact .refl hs allGenuine_nil
  | some fit read =>
    have hgrown := read.grown hs.settle fit
    have hbefore : p.before = [] := hgrown.before (.inr rfl)
    exact ⟨hgrown.sound, hbefore, fun _ => by simpa [hbefore] using hgrown.adds, fun _ => hgrown.begins⟩

/-- A node that takes properties of its own row. There are no comments between them. -/
private theorem Adds.wrapInRow {k : Kind} (h : Adds cs s before (p.before ++ p.trees) t)
    (ht : t.comments = []) (hc : Adds cs t.settle [] [content] u) (hcont : HasContent [content])
    (hk : isLaidOut k = false) : Adds cs s before (p.wrap k [] content) u := by
  rw [Layout.settle_eq ht] at hc
  exact Adds.wrap (by simpa using h.append hc) hcont hk

/-! Only the place matters for what is read, not what was passed before it. -/

section
variable {v : Layout}

theorem flowContent_congr {inFlow : Bool} (hs : s.cursor = v.cursor)
    (h : flowContent rules inFlow i s = .ok (content, u)) : flowContent rules inFlow i v = .ok (content, u) := by
  have hrest : s.rest = v.rest := by rw [Layout.rest, Layout.rest, hs]
  have hcolumn : s.column = v.column := by rw [Layout.column, Layout.column, hs]
  have hat (c : Char) : s.at? c = v.at? c := by rw [Layout.at?, Layout.at?, hrest]
  cases flowContent_eq_ok.mp h with
  | collection isMapping bracket read =>
    refine flowContent_eq_ok.mpr (.collection isMapping (hat _ ▸ bracket) ?_)
    simpa only [collection, Layout.token, Layout.settle, hs] using read
  | quoted style quote read =>
    refine flowContent_eq_ok.mpr (.quoted style (hat _ ▸ quote) ?_)
    simpa only [quoted, hrest, hs] using read
  | reference star name =>
    rw [hs]
    exact flowContent_eq_ok.mpr (.reference (hat _ ▸ star) (hrest ▸ name))
  | plain begins length =>
    have hbegins : beginsPlain inFlow v = true := by
      rwa [beginsPlain, Layout.atDocument, hrest, hcolumn, ← Layout.atDocument, ← beginsPlain] at begins
    rw [hs]
    exact flowContent_eq_ok.mpr (.plain hbegins (by rw [← hcolumn, ← hrest, length]))

private theorem property_congr {x : List Tree × Layout} (hs : s.cursor = v.cursor)
    (hc : s.comments = v.comments) (h : s.property = .ok x) : v.property = .ok x := by
  have hat : s.at? '&' = v.at? '&' := by rw [Layout.at?, Layout.at?, Layout.rest, Layout.rest, hs]
  have hrest : s.rest = v.rest := by rw [Layout.rest, Layout.rest, hs]
  have htoken {k : Kind} {n? : Option Nat} (h : s.token? k n? = .ok x) : v.token? k n? = .ok x := by
    cases n? with
    | none => cases h
    | some n => simpa only [Layout.token?, Layout.token, hs, hc] using h
  unfold Layout.property at h ⊢
  rw [hat, hrest] at h
  split at h
  · rw [if_pos ‹_›]
    exact htoken h
  · rw [if_neg ‹_›]
    exact htoken h

private theorem Properties.read_congr {q : Properties} (hs : s.cursor = v.cursor)
    (hc : s.comments = v.comments) (h : p.read s = .ok (q, t)) : p.read v = .ok (q, t) := by
  have hat : s.at? '&' = v.at? '&' := by rw [Layout.at?, Layout.at?, Layout.rest, Layout.rest, hs]
  rw [read_eq_ok, hat, hc] at h
  obtain ⟨htwice, ts, hprop, hq⟩ := h
  exact read_eq_ok.mpr ⟨htwice, ts, property_congr hs hc hprop, hq⟩

private theorem Properties.Group.congr {goesOn : Layout → Bool} (hs : s.cursor = v.cursor)
    (hc : s.comments = v.comments) (h : Group goesOn s p t) : Group goesOn v p t := by
  cases h with
  | one read ends => exact .one (read_congr hs hc read) ends
  | two first more second => exact .two (read_congr hs hc first) more second

theorem rowProperties_congr {q : Properties} (hs : s.cursor = v.cursor)
    (h : rowProperties s = .ok (q, t)) :
    rowProperties v = .ok (q, t) ∨ rowProperties v = .ok (q, v) ∧ q = {} ∧ t = s := by
  have hat : s.atProperty = v.atProperty := by
    simp only [Layout.atProperty, Layout.at?, Layout.rest, hs]
  have hsettle : s.settle.cursor = v.settle.cursor := hs
  cases rowProperties_eq_ok.mp h with
  | none unfit => exact .inr ⟨rowProperties_eq_ok.mpr (.none (hat ▸ unfit)), rfl, rfl⟩
  | some fit read => exact .inl (rowProperties_eq_ok.mpr (.some (hat ▸ fit) (read.congr hsettle rfl)))

private theorem Keyed.congr (hs : s.cursor = v.cursor) (h : Keyed rules s key u) :
    Keyed rules v key u := by
  obtain ⟨i, q, t, hrow, hcolon, hfresh, halt⟩ := h
  obtain hrow' | ⟨hrow', rfl, rfl⟩ := rowProperties_congr hs hrow
  · exact ⟨i, q, t, hrow', hcolon, hfresh, hs ▸ halt⟩
  · refine ⟨i, {}, v, hrow', hcolon, hfresh, .inr ?_⟩
    obtain ⟨hne, -⟩ | ⟨content, hcontent, hrow, -, hkey⟩ := halt
    · exact absurd rfl hne
    · exact ⟨content, flowContent_congr hs hcontent, hs ▸ hrow, fun hne => absurd rfl hne, hkey⟩

private theorem keyed_settle : Keyed rules s.settle key u ↔ Keyed rules s key u :=
  ⟨Keyed.congr (s := s.settle) (v := s) rfl, Keyed.congr (s := s) (v := s.settle) rfl⟩

end

/-- A key without indicator, with its colon next. -/
theorem keyed_of_plainKey (h : plainKey rules i s = .ok (key, u)) : Keyed rules s key u := by
  cases plainKey_eq_ok.mp h with
  | bare properties some colon =>
    obtain ⟨hat, hfresh⟩ := isKeyColon_colon colon
    exact ⟨i, _, u, properties, hat, hfresh, .inl ⟨by simpa using some, rfl, rfl⟩⟩
  | wrapped properties inRow read alone colon =>
    obtain ⟨hat, hfresh⟩ := isKeyColon_colon colon
    refine ⟨i, _, _, properties, hat, hfresh, .inr ⟨_, read, colon, fun hne => ?_, rfl⟩⟩
    exact ⟨by simpa [hne] using inRow, by simpa [hne] using alone⟩

/-- A fault in the key is one in the pair. -/
theorem key_hasFault (h : keyValue rules i key t = .ok (ts, u)) (hf : Tree.hasFaultList ts = false) :
    Tree.hasFaultList key = false := by
  obtain ⟨value, -, rfl⟩ := keyValue_eq_ok.mp h
  simp only [Tree.hasFaultList_cons, Tree.hasFault_node, Tree.hasFaultList_append,
    Bool.or_eq_false_iff] at hf
  exact hf.1.2.1.1

theorem keyed_adds (hrules : rules.Sound cs) (hs : s.Sound cs) (h : Keyed rules s key u)
    (hf : Tree.hasFaultList key = false) : Adds cs s.settle [] key u ∧ Begins s key := by
  obtain ⟨i, q, t, hrow, -, -, halt⟩ := keyed_settle.mpr h
  obtain ⟨hq, hbefore, hadds, hbegins⟩ := rowProperties_grown hs.settle hrow
  have hadds : Adds cs s.settle [] q.trees t := hadds (.inr rfl)
  have hfirst : Begins s q.trees ∨ q = {} ∧ t = s.settle := by
    by_cases hat : s.settle.atProperty = true
    · exact .inl (hbegins hat)
    · exact .inr (rowProperties_none (eq_false_of_ne_true hat) hrow)
  obtain ⟨hne, rfl, rfl⟩ | ⟨content, hcontent, -, hinRow, rfl⟩ := halt
  · obtain ⟨hbare, -⟩ := Adds.bare hq (by simpa [hbefore] using hadds)
    refine ⟨hbare, (hfirst.resolve_right fun h => ?_).mono ?_⟩
    · rw [h.1] at hne
      exact hne rfl
    · simp [Properties.leavesList_bare]
  · obtain ⟨hcadds, hcbegins⟩ :=
      flowContent_adds hrules hadds.sound hcontent (Properties.hasFault_of_wrap hf)
    have ht : t.comments = [] := by
      rcases hfirst with hq | ⟨-, rfl⟩
      · have hfresh := (hinRow hq.hasContent.ne_nil).1
        exact (hadds.sound.inRow hfresh).resolve_left (by simp [flowContent_more hcontent])
      · rfl
    refine ⟨Adds.wrapInRow (by simpa [hbefore] using hadds) ht hcadds hcbegins.hasContent rfl, ?_⟩
    rcases hfirst with hq | ⟨-, rfl⟩
    · exact hq.mono (by simp [Properties.leavesList_wrap])
    · have hcbegins : Begins s [content] := hcbegins
      exact hcbegins.wrap

private theorem pairRead_of_keyed (hk : Keyed rules s key t)
    (h : keyValue rules j key t = .ok (ts, u)) :
    ∃ p, ts = [p] ∧ PairRead rules j s p u := by
  obtain ⟨value, -, rfl⟩ := keyValue_eq_ok.mp h
  exact ⟨_, rfl, .inr ⟨key, t, hk, h⟩⟩

private theorem pairRead_of_pair (h : pair rules j s = .ok (ts, u)) :
    ∃ p, ts = [p] ∧ PairRead rules j s p u := by
  cases pair_eq_ok.mp h with
  | marked question | valueless question => exact ⟨_, rfl, .inl ⟨by rw [question, Bool.true_or], h⟩⟩
  | keyless colon => exact ⟨_, rfl, .inl ⟨by rw [colon, Bool.or_true], h⟩⟩
  | keyed plain read => exact pairRead_of_keyed (keyed_settle.mp (keyed_of_plainKey plain)) read

/-- A pair of parts. -/
private theorem Adds.pairOf {parts : List Tree} (hrules : rules.Sound cs) (hs : s.Sound cs)
    (hj : j.floor = s.column + 1) (hdoc : s.atDocument = false) (hadds : Adds cs s.settle [] parts u)
    (hb : Begins s parts) (h : PairRead rules j s (.node .blockMappingPair parts) u) :
    Adds cs s.settle [] [.node .blockMappingPair parts] u ∧ Begins s [.node .blockMappingPair parts] := by
  obtain ⟨n, rfl⟩ := hrules.level
  exact ⟨hadds.node hb.hasContent fun _ => .pair n j s u (hadds.stands hs hb (by simp)) hj hdoc h, hb.node⟩

theorem pairRead_adds (hrules : rules.Sound cs) (hs : s.Sound cs) (hj : j.floor = s.column + 1)
    (hdoc : s.atDocument = false) {p : Tree} (h : PairRead rules j s p u) (hf : p.hasFault = false) :
    Adds cs s.settle [] [p] u ∧ Begins s [p] := by
  have hnone : Properties.Sound cs {} := Properties.none_sound
  have mark_begins {c : Char} {k : Kind} (h : s.atMark c = true) (hk : k ≠ .comment ∧ k ≠ .blockText) :
      Begins s (s.settle.token k 1).1 :=
    Layout.token_begins (s := s.settle) (Layout.rest_ne_nil_of_atMark h) Nat.one_ne_zero hk
  obtain ⟨hat, hpair⟩ | ⟨key, t, hkeyed, hpair⟩ := id h
  · have hmark := Layout.mark_adds hs.settle 1
    cases pair_eq_ok.mp hpair with
    | marked question keyRead _ valueRead =>
      simp only [Tree.hasFault_node, Tree.hasFaultList_append, Bool.or_eq_false_iff] at hf
      have hk := hmark.append (hrules.value hmark.sound hnone keyRead hf.2.1.1.2).1
      have hcolon := hk.append (Layout.colon_adds hk.sound)
      have hall := hcolon.append (hrules.value hcolon.sound hnone valueRead hf.2.2).1
      exact hall.pairOf hrules hs hj hdoc (mark_begins question (by simp)).append.append.append h
    | valueless question read =>
      simp only [Tree.hasFault_node, Tree.hasFaultList_append, Bool.or_eq_false_iff] at hf
      have hall := hmark.append (hrules.value hmark.sound hnone read hf.2.2).1
      exact hall.pairOf hrules hs hj hdoc (mark_begins question (by simp)).append h
    | keyless colon read =>
      simp only [Tree.hasFault_node, Tree.hasFaultList_append, Bool.or_eq_false_iff] at hf
      have hcolon := Layout.colon_adds hs.settle
      have hall := hcolon.append (hrules.value hcolon.sound hnone read hf.2.2).1
      exact hall.pairOf hrules hs hj hdoc (mark_begins colon (by simp)).append h
    | keyed plain =>
      have hno : (s.settle.atMark '?' || s.settle.atMark ':') = false := plainKey_no_mark plain
      have hat : (s.settle.atMark '?' || s.settle.atMark ':') = true := hat
      rw [hno] at hat
      cases hat
  · obtain ⟨value, hvalue, hp⟩ := keyValue_eq_ok.mp hpair
    obtain rfl := List.singleton_inj.mp hp
    simp only [Tree.hasFault_node, Tree.hasFaultList_append, Bool.or_eq_false_iff] at hf
    obtain ⟨hk, hbegins⟩ := keyed_adds hrules hs hkeyed hf.2.1.1
    have hcolon := hk.append (Layout.colon_adds hk.sound)
    have hall := hcolon.append (hrules.value hcolon.sound hnone hvalue hf.2.2).1
    exact hall.pairOf hrules hs hj hdoc hbegins.append.append h

theorem pair_adds (hrules : rules.Sound cs) (hs : s.Sound cs) (hj : j.floor = s.column + 1)
    (hdoc : s.atDocument = false) (h : pair rules j s = .ok (ts, u))
    (hf : Tree.hasFaultList ts = false) : Adds cs s.settle [] ts u ∧ Begins s ts := by
  obtain ⟨p, rfl, hread⟩ := pairRead_of_pair h
  exact pairRead_adds hrules hs hj hdoc hread (by simpa using hf)

/-- The entries of a collection stand in the column of the first token of their rows. -/
theorem Layout.Sound.opens (hs : s.Sound cs) (hl : s.isLevel i = true) (hend : s.atEnd = false) :
    i.floor = s.column + 1 := by
  simp only [Layout.isLevel, Bool.and_eq_true, beq_iff_eq, Bool.not_eq_true'] at hl
  obtain ⟨⟨hfresh, hfloor⟩, htab⟩ := hl
  rcases hs.aligned hfresh htab with h | h
  · rw [hend] at h
    cases h
  · omega

theorem Layout.closes_eq_false (h : s.closes i = false) : s.atEnd = false ∧ s.atDocument = false := by
  simp only [Layout.closes, Bool.or_eq_false_iff] at h
  exact h.1

/-- The remaining entries of a collection: none, or one that opens here, and then more of them. -/
def furtherEntries (i : Indent) (s : Layout) (opens : Bool) (entry : Step) (more : Layout → Step) :
    Step := do
  if s.closes i then return (s.comments, s.settle)
  else
    let (first, t) ← s.orSkip i (i.resumes false) (if opens then entry else s.fault)
    let (rest, t) ← more t
    return (s.comments ++ first ++ rest, t)

theorem blockPairs_eq : blockPairs rules i s =
    furtherEntries i s (s.isLevel i) (pair rules i s) (rules.pairs i) := rfl

theorem blockItems_eq : blockItems rules i s =
    furtherEntries i s (s.isLevel i && s.atMark '-') (blockItems.item rules i s) (rules.items i) := rfl

theorem furtherEntries_cases {opens : Bool} {entry : Step} {more : Layout → Step}
    (h : furtherEntries i s opens entry more = .ok (ts, u)) (hf : Tree.hasFaultList ts = false) :
    s.closes i = true ∧ ts = s.comments ∧ u = s.settle ∨
      s.closes i = false ∧ opens = true ∧ ∃ first t rest, entry = .ok (first, t) ∧
        more t = .ok (rest, u) ∧ ts = s.comments ++ first ++ rest ∧
        Tree.hasFaultList first = false ∧ Tree.hasFaultList rest = false := by
  unfold furtherEntries at h
  split at h
  · rename_i hcloses
    cases h
    exact .inl ⟨hcloses, rfl, rfl⟩
  rename_i hopen
  simp only [bind_eq_ok, pure_eq_ok, Prod.exists, Prod.mk.injEq] at h
  obtain ⟨first, t, hfirst, rest, v, hrest, rfl, rfl⟩ := h
  simp only [Tree.hasFaultList_append, Bool.or_eq_false_iff] at hf
  have hentry := Layout.orSkip_eq_ok hfirst hf.1.2
  split at hentry
  · exact .inr ⟨by simpa using hopen, ‹_›, first, t, rest, hentry, hrest, rfl, hf.1.2, hf.2⟩
  · cases hentry

theorem blockPairs_adds (hrules : rules.Sound cs) (hs : s.Sound cs)
    (h : blockPairs rules i s = .ok (ts, u)) (hf : Tree.hasFaultList ts = false) :
    Adds cs s [] ts u := by
  obtain ⟨-, rfl, rfl⟩ | ⟨hopen, hlevel, first, t, rest, hpair, hrest, rfl, hff, hfr⟩ :=
    furtherEntries_cases (blockPairs_eq ▸ h) hf
  · simpa using Adds.gather hs allGenuine_nil
  · obtain ⟨hend, hdoc⟩ := Layout.closes_eq_false hopen
    obtain ⟨hadds, -⟩ := pair_adds hrules hs (hs.opens hlevel hend) hdoc hpair hff
    simpa using (hadds.afterComments hs allGenuine_nil).append (hrules.pairs hadds.sound hrest hfr)

/-! ### Sequences and mappings -/

theorem blockItems_item_adds (hrules : rules.Sound cs) (hs : s.Sound cs) (hat : s.atMark '-' = true)
    (h : blockItems.item rules i s = .ok (ts, u)) (hf : Tree.hasFaultList ts = false) :
    Adds cs s.settle [] ts u ∧ Begins s ts := by
  obtain ⟨value, hvalue, rfl⟩ := item_eq_ok.mp h
  simp only [Tree.hasFaultList_cons, Tree.hasFault_node, Tree.hasFaultList_append,
    Bool.or_eq_false_iff] at hf
  have hdash := Layout.mark_adds hs.settle 1
  have hbegins : Begins s.settle (s.settle.token .mark 1).1 :=
    Layout.token_begins (Layout.rest_ne_nil_of_atMark hat) Nat.one_ne_zero (by simp)
  have hbegins : Begins s ((s.settle.token .mark 1).1 ++ value) := hbegins.append
  have hall := hdash.append (hrules.value hdash.sound Properties.none_sound hvalue hf.1.2.2).1
  exact ⟨hall.node hbegins.hasContent nofun, hbegins.node⟩

theorem blockItems_adds (hrules : rules.Sound cs) (hs : s.Sound cs)
    (h : blockItems rules i s = .ok (ts, u)) (hf : Tree.hasFaultList ts = false) :
    Adds cs s [] ts u := by
  obtain ⟨-, rfl, rfl⟩ | ⟨-, hopens, first, t, rest, hitem, hrest, rfl, hff, hfr⟩ :=
    furtherEntries_cases (blockItems_eq ▸ h) hf
  · simpa using Adds.gather hs allGenuine_nil
  · obtain ⟨hadds, -⟩ :=
      blockItems_item_adds hrules hs (Bool.and_eq_true_iff.mp hopens).2 hitem hff
    simpa using (hadds.afterComments hs allGenuine_nil).append (hrules.items hadds.sound hrest hfr)

theorem sequence_adds (hrules : rules.Sound cs) (hs : s.Sound cs) (hj : j.floor = s.column + 1)
    (hat : s.atMark '-' = true) (h : sequence rules j s = .ok (content, u))
    (hf : content.hasFault = false) : Adds cs s.settle [] [content] u ∧ Begins s [content] := by
  obtain ⟨first, t, rest, hfirst, hrest, rfl⟩ := sequence_eq_ok.mp h
  simp only [Tree.hasFault_node, Tree.hasFaultList_append, Bool.or_eq_false_iff] at hf
  obtain ⟨hadds, hbegins⟩ := blockItems_item_adds hrules hs hat hfirst hf.2.1
  have hall := hadds.append (hrules.items hadds.sound hrest hf.2.2)
  have hbegins : Begins s (first ++ rest) := hbegins.append
  obtain ⟨n, rfl⟩ := hrules.level
  have horigin := Origin.sequence n j s _ (hall.stands hs hbegins (by simp)) hj hat h
  exact ⟨hall.node hbegins.hasContent fun _ => horigin, hbegins.node⟩

private theorem mapping_adds (hrules : rules.Sound cs) (hs : s.Sound cs)
    (hj : j.floor = s.column + 1)
    (hdoc : s.atDocument = false) {first : Step}
    (hfirst : ∀ {us t}, first = .ok (us, t) → ∃ p, us = [p] ∧ PairRead rules j s p t)
    (h : mapping rules j first = .ok (content, u)) (hf : content.hasFault = false) :
    Adds cs s.settle [] [content] u ∧ Begins s [content] := by
  obtain ⟨us, t, rest, hus, hrest, rfl⟩ := mapping_eq_ok.mp h
  obtain ⟨p, rfl, hread⟩ := hfirst hus
  simp only [Tree.hasFault_node, List.singleton_append, Tree.hasFaultList_cons,
    Bool.or_eq_false_iff] at hf
  obtain ⟨hadds, hbegins⟩ := pairRead_adds hrules hs hj hdoc hread hf.2.1
  have hall := hadds.append (hrules.pairs hadds.sound hrest hf.2.2)
  have hbegins : Begins s ([p] ++ rest) := hbegins.append
  obtain ⟨n, rfl⟩ := hrules.level
  have horigin := Origin.mapping n j s t _ (hall.stands hs hbegins (by simp)) hj hdoc p rest hread hrest rfl
  exact ⟨hall.node hbegins.hasContent fun _ => horigin, hbegins.node⟩

/-! ### Nodes -/

/-- A node behind the properties of earlier rows. -/
private theorem Adds.wrapBehind {k : Kind} (h : Adds cs s.settle [] [content] u) (hs : s.Sound cs)
    (hp : p.Sound cs) (hb : Begins s [content]) (hk : isLaidOut k = false) :
    Adds cs s (p.before ++ p.trees) (p.wrap k s.comments content) u ∧
      Begins s (p.wrap k s.comments content) :=
  ⟨Adds.wrap (h.afterComments hs hp.genuine) hb.hasContent hk, hb.wrap⟩

/-- The properties of a row join those of earlier rows. -/
theorem Adds.join {r : Properties} (hs : s.Sound cs) (hp : p.Sound cs) (hq : q.Sound cs)
    (hadds : Adds cs s.settle [] q.trees t) (h : p.join? { q with before := s.comments } = some r) :
    r.Sound cs ∧ Adds cs s (p.before ++ p.trees) (r.before ++ r.trees) t ∧
      Tree.leavesList q.trees ⊆ Tree.leavesList (r.before ++ r.trees) := by
  have hq' : Properties.Sound cs { q with before := s.comments } :=
    ⟨allGenuine_append.mpr ⟨hs.allGenuine, hadds.genuine⟩, hq.content⟩
  have he := Properties.join?_eq_some h
  refine ⟨hp.join? hq' h, ?_, fun l hl => by simp [he, hl]⟩
  rw [he, ← List.append_assoc]
  exact hadds.afterComments hs hp.genuine

/-- A mapping holds its first key. -/
theorem leaves_of_mapping (h : mapping rules j (keyValue rules j key t) = .ok (content, u)) :
    Tree.leavesList key ⊆ content.leaves ∧
      (content.hasFault = false → Tree.hasFaultList key = false) := by
  obtain ⟨us, v, rest, hus, -, rfl⟩ := mapping_eq_ok.mp h
  refine ⟨?_, fun hf => key_hasFault hus ?_⟩
  · obtain ⟨value, -, rfl⟩ := keyValue_eq_ok.mp hus
    simp
  · rw [Tree.hasFault_node, Tree.hasFaultList_append] at hf
    simp_all

/-- A mapping behind the properties of earlier rows, with its first key. -/
private theorem keyedMapping_adds (hrules : rules.Sound cs) (hs : s.Sound cs)
    (hj : j.floor = s.column + 1)
    (hdoc : s.atDocument = false) (hp : p.Sound cs) (hk : Keyed rules s key t)
    (h : mapping rules j (keyValue rules j key t) = .ok (content, u))
    (hf : Tree.hasFaultList (p.wrap .blockNode s.comments content) = false) :
    (Adds cs s (p.before ++ p.trees) (p.wrap .blockNode s.comments content) u ∧
      Begins s (p.wrap .blockNode s.comments content)) ∧
      Tree.leavesList key ⊆ Tree.leavesList (p.wrap .blockNode s.comments content) := by
  obtain ⟨hadds, hb⟩ := mapping_adds hrules hs hj hdoc (pairRead_of_keyed hk) h (Properties.hasFault_of_wrap hf)
  refine ⟨hadds.wrapBehind hs hp hb rfl, fun l hl => ?_⟩
  have hl : l ∈ content.leaves := (leaves_of_mapping h).1 hl
  simp [Properties.leavesList_wrap, hl]

/-- Properties in front of a node end up in the tree. -/
theorem nodeAfter_adds (hrules : rules.Sound cs) (hs : s.Sound cs) (hdoc : s.atDocument = false)
    (hp : p.Sound cs) (hq : q.Sound cs) (hne : q.trees ≠ [])
    (hadds : Adds cs s.settle [] q.trees t) (hrow : rowProperties s = .ok (q, t))
    (h : nodeAfter rules i compact level p q s t = .ok (ts, u)) (hf : Tree.hasFaultList ts = false) :
    Adds cs s (p.before ++ p.trees) ts u ∧ Tree.leavesList q.trees ⊆ Tree.leavesList ts := by
  have ht := hadds.sound
  -- a node in the row of the properties carries them and those of earlier rows
  have inRow_adds {r : Properties} {k : Kind} {content : Tree} {u : Layout} (hfresh : t.fresh = false)
      (hend : t.atEnd = false) (hr : p.join? { q with before := s.comments } = some r)
      (hcontent : Adds cs t.settle [] [content] u ∧ Begins t [content]) (hk : isLaidOut k = false) :
      Adds cs s (p.before ++ p.trees) (r.wrap k [] content) u ∧
        Tree.leavesList q.trees ⊆ Tree.leavesList (r.wrap k [] content) := by
    obtain ⟨-, hjoined, hkept⟩ := Adds.join hs hp hq hadds hr
    have htc := (ht.inRow hfresh).resolve_left (by simp [hend])
    exact ⟨Adds.wrapInRow hjoined htc hcontent.1 hcontent.2.hasContent hk,
      List.Subset.trans hkept (by simp [Properties.leavesList_wrap])⟩
  cases (nodeAfter_eq_ok hf).mp h with
  | later ends join read =>
    obtain ⟨hrs, hjoined, hkept⟩ := Adds.join hs hp hq hadds join
    obtain ⟨hvalue, -⟩ := hrules.value ht hrs read hf
    exact ⟨hjoined.trans hvalue, List.Subset.trans hkept hvalue.kept⟩
  | keyless inRow colon opens read =>
    have hkeyed : Keyed rules s q.bare t := ⟨i, q, t, hrow, colon, inRow, .inl ⟨hne, rfl, rfl⟩⟩
    obtain ⟨hmapping, hkept⟩ := keyedMapping_adds hrules hs rfl hdoc hp hkeyed read hf
    exact ⟨hmapping.1, List.Subset.trans (by simp [Properties.leavesList_bare]) hkept⟩
  | scalar inRow header read join =>
    have hend : t.atEnd = false := by
      rcases (Bool.or_eq_true _ _).mp header with h | h <;> exact Layout.atEnd_eq_false h rfl
    exact inRow_adds inRow hend join (blockScalar_adds ht read) rfl
  | @keyed key _ v _ inRow keyRead noAlias colon opens read =>
    obtain ⟨hat, hfresh⟩ := isKeyColon_colon colon
    have hkeyed : Keyed rules s (q.wrap .flowNode [] key) v :=
      ⟨i, q, t, hrow, hat, hfresh, .inr ⟨key, keyRead, colon, fun _ => ⟨inRow, noAlias⟩, rfl⟩⟩
    obtain ⟨hmapping, hkept⟩ := keyedMapping_adds hrules hs rfl hdoc hp hkeyed read hf
    exact ⟨hmapping.1, List.Subset.trans (by simp [Properties.leavesList_wrap]) hkept⟩
  | content inRow read _ _ join =>
    exact inRow_adds inRow (flowContent_more read) join
      (flowContent_adds hrules ht read (Properties.hasFault_of_wrap hf)) rfl

theorem nodeHere_adds (hrules : rules.Sound cs) (hs : s.Sound cs) (hdoc : s.atDocument = false)
    (hp : p.Sound cs) (h : nodeHere rules i compact level p s = .ok (ts, u))
    (hf : Tree.hasFaultList ts = false) : Adds cs s (p.before ++ p.trees) ts u ∧ Begins s ts := by
  cases nodeHere_eq_ok.mp h with
  | sequence dash opens read =>
    obtain ⟨hadds, hb⟩ := sequence_adds hrules hs rfl dash read (Properties.hasFault_of_wrap hf)
    exact hadds.wrapBehind hs hp hb rfl
  | marked mark opens read =>
    obtain ⟨hadds, hb⟩ := mapping_adds hrules hs rfl hdoc pairRead_of_pair read (Properties.hasFault_of_wrap hf)
    exact hadds.wrapBehind hs hp hb rfl
  | scalar header read =>
    obtain ⟨hadds, hb⟩ := blockScalar_adds hs read
    exact hadds.wrapBehind hs hp hb rfl
  | decorated property properties read =>
    obtain ⟨hq, -, hadds, hqb⟩ := rowProperties_grown hs properties
    have hqb := hqb property
    obtain ⟨hnode, hkept⟩ :=
      nodeAfter_adds hrules hs hdoc hp hq hqb.hasContent.ne_nil (hadds (.inl property)) properties read hf
    exact ⟨hnode, hqb.mono hkept⟩
  | @keyed key _ t _ keyRead colon opens read =>
    obtain ⟨hat, hfresh⟩ := isKeyColon_colon colon
    have hrow : rowProperties s = .ok ({}, s) := rowProperties_eq_ok.mpr (.none (flowContent_no_property keyRead))
    have hkeyed : Keyed rules s [.node .flowNode [key]] t :=
      ⟨i, {}, s, hrow, hat, hfresh, .inr ⟨key, keyRead, colon, fun hne => absurd rfl hne, rfl⟩⟩
    exact (keyedMapping_adds hrules hs rfl hdoc hp hkeyed read hf).1
  | content read =>
    obtain ⟨hadds, hb⟩ := flowContent_adds hrules hs read (Properties.hasFault_of_wrap hf)
    exact hadds.wrapBehind hs hp hb rfl

/-- Only a place without a node is left as it is, and then there is nothing there but the properties
before it. -/
theorem blockValue_adds (hrules : rules.Sound cs) (hs : s.Sound cs) (hp : p.Sound cs)
    (h : blockValue rules i compact level p s = .ok (ts, u)) (hf : Tree.hasFaultList ts = false) :
    Adds cs s (p.before ++ p.trees) ts u ∧ (HasContent ts ∨ p.trees = [] ∧ u = s) := by
  have hbare : Adds cs s (p.before ++ p.trees) p.bare s ∧
      (HasContent p.bare ∨ p.trees = [] ∧ s = s) := by
    obtain ⟨hadds, hc⟩ := Adds.bare hp (.refl hs hp.genuine)
    refine ⟨hadds, ?_⟩
    cases he : p.trees.isEmpty
    · exact .inl (hc he)
    · exact .inr ⟨List.isEmpty_iff.mp he, rfl⟩
  cases (blockValue_eq_ok hf).mp h with
  | closed | unread | outside => exact hbare
  | node goesOn _ read =>
    obtain ⟨-, hdoc⟩ := Layout.closes_eq_false goesOn
    obtain ⟨hadds, hb⟩ := nodeHere_adds hrules hs hdoc hp read hf
    exact ⟨hadds, .inl hb.hasContent⟩
  | level goesOn _ dash read =>
    obtain ⟨hend, -⟩ := Layout.closes_eq_false goesOn
    simp only [Bool.and_eq_true, and_assoc] at dash
    have hj : i.level.floor = s.column + 1 := hs.opens dash.2.1 hend
    obtain ⟨hadds, hb⟩ := sequence_adds hrules hs hj dash.2.2 read (Properties.hasFault_of_wrap hf)
    obtain ⟨hadds, hb⟩ := hadds.wrapBehind hs hp hb (k := .blockNode) rfl
    exact ⟨hadds, .inl hb.hasContent⟩

end YamlOutline.Syntax
