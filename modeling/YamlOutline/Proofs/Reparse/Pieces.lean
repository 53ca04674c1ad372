import YamlOutline.Proofs.Reparse.Whole

/-! Collections and pairs that are taken out of a text: as the first node of a text of their own they
are read in the same way. -/

namespace YamlOutline.Syntax
open Text (size)
variable {cs behind : List Char} {stop rows m : Nat} {s s' t u : Layout} {i j : Indent}
  {rules : Rules} {key ts : List Tree} {content p : Tree} {q : Properties}

theorem Indent.top_floor_le (i : Indent) : Indent.top.floor ≤ i.floor :=
  Nat.zero_le _

/-! ### The start of a piece -/

/-- The state with its place, seen as the other state is. -/
def Layout.like (s' s : Layout) : Layout :=
  { s' with fresh := s.fresh, leading := s.leading, tabbed := s.tabbed }

/-- Reading is at a piece that in the text begins at `s`, and on its own at `s'` as the first token. -/
structure Starts (behind : List Char) (stop rows : Nat) (s s' : Layout) : Prop where
  cursor : s.cursor.Twin behind stop rows s'.cursor
  more : s'.rest ≠ []
  fresh : s'.fresh = true
  tabbed : s'.tabbed = false
  comments : s'.comments = []

theorem Starts.live (h : Starts behind stop rows s s') :
    Layout.Live behind stop rows s (s'.like s) :=
  ⟨h.cursor, h.more, rfl, rfl, rfl, by simp [Layout.like, h.comments]⟩

private theorem Plain.begins_cons {c : Char} {r : List Char} {inFlow : Bool}
    (h : begins inFlow (c :: r) = true) :
    isVisible c = true ∧ c ≠ '#' ∧ c ≠ '%' ∧ c ≠ '|' ∧ c ≠ '>' ∧
      ((c == '-' || c == '?' || c == ':') = true → atGap r = false) := by
  simp only [begins] at h
  split at h
  · rename_i hc
    refine ⟨?_, ?_, ?_, ?_, ?_, fun _ => ?_⟩
    any_goals
      simp only [Bool.or_eq_true, beq_iff_eq] at hc
      rcases hc with (rfl | rfl) | rfl <;> decide
    by_contra hgap
    rw [isHead_of_atGap inFlow (by simpa using hgap)] at h
    cases h
  · rename_i hc
    obtain ⟨hvisible, hindicator⟩ := Bool.and_eq_true_iff.mp h
    refine ⟨hvisible, ?_, ?_, ?_, ?_, fun h => absurd h hc⟩
    all_goals
      rintro rfl
      cases hindicator

/-! ### Pairs -/

theorem Indent.twin_top (hj : j.floor = s.column + 1) (hcolumn : s.column = s'.column) (isSequence : Bool) :
    Indent.Twin j (Indent.top.nested s'.column isSequence) :=
  .inr ⟨by rw [hj, hcolumn]; rfl, rfl, by omega⟩

/-- What the first node of a text is, if it is the mapping whose first pair is read in this way. -/
def Opens (m : Nat) (s : Layout) (first : Step) : Prop :=
  nodeHere (.ofDepth m) .top false false {} s = (do
    let (t, w) ← mapping (.ofDepth m) (Indent.top.nested s.column false) first
    return ([.node .blockNode [t]], w))

theorem Starts.mayOpen (h : Starts behind stop rows s s') :
    ((false || s'.fresh) && !s'.tabbed) = true := by
  simp [h.fresh, h.tabbed]

theorem Starts.opens_pair (hstart : Starts behind stop rows s s')
    (hmark : (s'.atMark '?' || s'.atMark ':') = true) :
    Opens m s' (pair (.ofDepth m) (Indent.top.nested s'.column false) s') := by
  have hdash : s'.atMark '-' = false := by
    rcases (Bool.or_eq_true _ _).mp hmark with h | h <;> exact Layout.atMark_unique h (by decide)
  simp only [Opens, nodeHere, hdash, hmark, hstart.mayOpen, hstart.comments]
  rfl

private theorem Starts.opens_content (hstart : Starts behind stop rows s s')
    (hat : s'.atProperty = false)
    (h : flowContent (.ofDepth m) false .top s' = .ok (content, u))
    (hcolon : isKeyColon u s'.cursor.row = true) :
    Opens m s' (keyValue (.ofDepth m) (Indent.top.nested s'.column false) [.node .flowNode [content]] u) := by
  obtain ⟨hdash, hquestion, hvalue, hbar, hfold, -⟩ := flowContent_no_mark h
  simp only [Opens, nodeHere, hdash, hquestion, hvalue, hbar, hfold, hat, hstart.mayOpen, hstart.comments, h]
  simp only [hcolon, bind, Except.bind]
  rfl

/-- A node that begins with an anchor or a tag. -/
private theorem nodeHere_of_property {compact level : Bool} {p : Properties}
    (hat : s.atProperty = true)
    (hrow : rowProperties s = .ok (q, t)) :
    nodeHere rules i compact level p s = nodeAfter rules i compact level p q s t := by
  obtain ⟨d, hd, hds⟩ := Layout.at?_of_atProperty hat
  have hne {c : Char} (hc : c ≠ '&' ∧ c ≠ '!') : d ≠ c := by
    rintro rfl
    exact hds.elim hc.1 hc.2
  have hother {c : Char} (hc : c ≠ '&' ∧ c ≠ '!') : s.at? c = false := Layout.at?_unique hd (hne hc)
  have hmark {c : Char} (hc : c ≠ '&' ∧ c ≠ '!') : s.atMark c = false := Layout.atMark_eq_false hd (hne hc)
  simp only [nodeHere, hmark (c := '-') (by decide), hmark (c := '?') (by decide),
    hmark (c := ':') (by decide), hother (c := '|') (by decide), hother (c := '>') (by decide), hat,
    afterProperties, hrow]
  rfl

private theorem Starts.opens_properties (hstart : Starts behind stop rows s s')
    (hat : s'.atProperty = true)
    (hrow : rowProperties s' = .ok (q, t)) (hfresh : t.fresh = false)
    (h : t.atMark ':' = true ∧ key = q.bare ∧ u = t ∨
      ∃ content, flowContent (.ofDepth m) false .top t = .ok (content, u) ∧ content.isAlias = false ∧
        isKeyColon u s'.cursor.row = true ∧ key = q.wrap .flowNode [] content) :
    Opens m s' (keyValue (.ofDepth m) (Indent.top.nested s'.column false) key u) := by
  rw [Opens, nodeHere_of_property hat hrow]
  have hatEnd : t.atEnd = false := by
    rcases h with ⟨hcolon, -, -⟩ | ⟨content, hcontent, -⟩
    · unfold Layout.atMark at hcolon
      unfold Layout.atEnd
      split at hcolon
      · rename_i d r hr
        obtain rfl : d = ':' := by simpa using (Bool.and_eq_true_iff.mp hcolon).1
        simp only [hr]
        rfl
      · cases hcolon
    · exact (flowContent_no_mark hcontent).2.2.2.2.2
  rcases h with ⟨hcolon, rfl, rfl⟩ | ⟨content, hcontent, halias, hcolon, rfl⟩
  · simp only [nodeAfter, hfresh, hatEnd, hcolon, hstart.mayOpen, hstart.comments]
    rfl
  · obtain ⟨-, -, hvalue, hbar, hfold, -⟩ := flowContent_no_mark hcontent
    simp only [nodeAfter, hfresh, hatEnd, hvalue, hbar, hfold, hcontent, halias, hcolon, hstart.mayOpen,
      hstart.comments]
    rfl

private theorem pair_congr {v : Layout} (hs : s.cursor = v.cursor)
    (hmark : (s.atMark '?' || s.atMark ':') = true) : pair rules j s = pair rules j v := by
  have hat (c : Char) : s.settle.atMark c = v.settle.atMark c := by
    simp only [Layout.atMark, Layout.settle, Layout.rest, hs]
  have htoken (k : Kind) : s.settle.token k 1 = v.settle.token k 1 := by
    simp only [Layout.token, Layout.settle, hs]
  have hmark' : (s.settle.atMark '?' || s.settle.atMark ':') = true := hmark
  simp only [pair, hat, htoken] at hmark' ⊢
  split
  · rfl
  · rename_i hquestion
    rw [if_pos (by simpa [hquestion] using hmark'), if_pos (by simpa [hquestion] using hmark')]

/-- On its own, a key opens a mapping. -/
theorem Keyed.opens (hrules : rules.Followed cs behind stop rows) (hs : s.Sound cs)
    (hstart : Starts behind stop rows s s') (h : Keyed rules s key u) (hf : Tree.hasFaultList key = false)
    (hc : Clear stop key) (hbefore : u.cursor.offset < stop) (hm : s'.rest.length ≤ m) :
    ∃ key' u', Tree.hasFaultList key' = false ∧ Layout.Live behind stop rows u u' ∧
      u'.rest.length < s'.rest.length ∧
      Opens m s' (keyValue (.ofDepth m) (Indent.top.nested s'.column false) key' u') := by
  have hlive := hstart.live
  obtain ⟨i, q, t, hrow, hcolon, hfresh, halt⟩ := h
  obtain ⟨-, hbefore', hadds, hbegins⟩ := rowProperties_grown hs hrow
  by_cases hat : s.atProperty = true
  · have hat' : s'.atProperty = true := by rwa [hlive.atProperty] at hat
    have hts := (hadds (.inl hat)).sound
    have hne : q.trees ≠ [] := (hbegins hat).hasContent.ne_nil
    have hcq : Clear stop q.trees := hc.mono (by
      rcases halt with ⟨-, rfl, -⟩ | ⟨_, -, -, -, rfl⟩
      · simp [Properties.leavesList_bare]
      · simp [Properties.leavesList_wrap])
    obtain ⟨q', t', hrow', hq', ht, -, hlt⟩ := rowProperties_followed hs hlive hrow hcq
    have hlt : t'.rest.length < s'.rest.length := hlt hne
    have hrow' : rowProperties s' = .ok (q', t') := by
      refine (rowProperties_congr (s := s'.like s) (v := s') rfl hrow').resolve_right fun h => ?_
      have hempty := hq'.isEmpty
      rw [h.2.1] at hempty
      exact hne (List.isEmpty_iff.mp hempty.symm)
    rcases halt with ⟨-, rfl, rfl⟩ | ⟨content, hcontent, hkey, hplain, rfl⟩
    · have ht := ht.live_of_lt hbefore
      exact ⟨q'.bare, t', hq'.bare_quiet, ht, hlt, hstart.opens_properties hat' hrow' (ht.fresh ▸ hfresh)
        (.inl ⟨(ht.atMark (by decide)).symm.trans hcolon, rfl, rfl⟩)⟩
    · obtain ⟨htfresh, halias⟩ := hplain hne
      have hfc := Properties.hasFault_of_wrap hf
      simp only [Properties.clear_wrap, clear_append] at hc
      have ht := ht.live_of_lt
        (Nat.lt_of_le_of_lt (flowContent_adds hrules.sound hts hcontent hfc).1.onward hbefore)
      obtain ⟨content', u', hcontent', halias', hfc', hu', hlt'⟩ := keyContent_followed (m := m)
        hrules hts ht i.top_floor_le hcontent hfc hc.2 hfresh hbefore (by omega)
      exact ⟨q'.wrap .flowNode [] content', u', hq'.wrap_quiet rfl rfl hfc', hu', by omega,
        hstart.opens_properties hat' hrow' (ht.fresh ▸ htfresh)
          (.inr ⟨content', hcontent', halias'.trans halias, (hlive.isKeyColon hu').trans hkey, rfl⟩)⟩
  · have hat' : s'.atProperty = false := by
      rw [hlive.atProperty] at hat
      exact Bool.eq_false_iff.mpr hat
    obtain ⟨rfl, rfl⟩ := rowProperties_none (eq_false_of_ne_true hat) hrow
    obtain ⟨hne, -⟩ | ⟨content, hcontent, hkey, -, rfl⟩ := halt
    · exact absurd rfl hne
    have hfc := Properties.hasFault_of_wrap hf
    simp only [Properties.clear_wrap, clear_append] at hc
    obtain ⟨content', u', hcontent', -, hfc', hu', hlt⟩ := keyContent_followed (m := m)
      hrules hs hlive i.top_floor_le hcontent hfc hc.2 hfresh hbefore hm
    exact ⟨[.node .flowNode [content']], u', by simp [hfc', Tree.isFault, Tree.kind], hu', hlt,
      hstart.opens_content hat' (flowContent_congr (s := s'.like t) (v := s') rfl hcontent')
        ((hlive.isKeyColon hu').trans hkey)⟩

/-- On its own, a pair opens a mapping. -/
theorem PairRead.opens (hrules : rules.BlockFollowed cs behind stop rows) (hs : s.Sound cs)
    (hstart : Starts behind stop rows s s') (hj : j.floor = s.column + 1) (h : PairRead rules j s p u)
    (hf : p.hasFault = false) (hc : Clear stop [p])
    (hend : Ends stop j (Indent.top.nested s'.column false) u) (hm : s'.rest.length ≤ m) :
    ∃ first, FollowsOn behind stop rows s' u first ∧ Opens m s' first := by
  have hlive := hstart.live
  have htwin := Indent.twin_top hj hstart.cursor.column false
  obtain ⟨hmark, hpair⟩ | ⟨key, v, hkeyed, hvalue⟩ := h
  · have hmark' : (s'.atMark '?' || s'.atMark ':') = true := by
      rwa [hlive.atMark (by decide), hlive.atMark (by decide)] at hmark
    obtain ⟨ts, u', hpair', hfollows⟩ :=
      pair_followed (m := m) hrules hs hlive htwin hpair (by simpa using hf) (by simpa using hc) hend hm
    refine ⟨_, ⟨ts, u', ?_, hfollows⟩, hstart.opens_pair hmark'⟩
    rw [← hpair']
    exact pair_congr rfl hmark'
  obtain ⟨hck, hbefore⟩ : Clear stop key ∧ v.cursor.offset < stop := by
    obtain ⟨value, -, hp⟩ := keyValue_eq_ok.mp hvalue
    obtain rfl := List.singleton_inj.mp hp
    simp only [clear_node, clear_append, clear_nil, and_true] at hc
    obtain ⟨_, _, _, -, hcolon, -⟩ := hkeyed
    exact ⟨hc.1.1, colon_before hcolon hc.1.2⟩
  have hfk := key_hasFault hvalue (by simpa using hf)
  have hv := (keyed_adds hrules.sound hs hkeyed hfk).1.sound
  obtain ⟨key', v', hf', hlive', hlt, hopens⟩ :=
    hkeyed.opens (m := m) hrules.toFollowed hs hstart hfk hck hbefore hm
  obtain ⟨ts, u', hvalue', hfv, hu, hlt'⟩ := keyValue_followed (m := m) hrules hv hlive' htwin hvalue
    (by simpa using hf) hf' (by simpa using hc) hend (by omega)
  exact ⟨_, ⟨ts, u', hvalue', hfv, hu, by omega⟩, hopens⟩

/-! ### Whole pieces -/

/-- The kind of collection that a piece is on its own. -/
def pieceKind : Kind → Kind
  | .blockMappingPair | .flowPair => .blockMapping
  | k => k

/-- The first node of a text is a collection, all of the text. -/
def ReadAlone (m : Nat) (s : Layout) (kind : Kind) : Prop :=
  ∃ k ts u, nodeHere (.ofDepth m) .top false false {} s = .ok ([.node k [.node kind ts]], u) ∧
    (k = .blockNode ∨ k = .flowNode) ∧ Tree.hasFaultList ts = false ∧ u.rest = [] ∧
    Tree.hasFaultList u.comments = false

theorem Layout.Twin.past {u' : Layout} (h : Layout.Twin behind stop rows u u') (hstop : stop ≤ u.cursor.offset) :
    Layout.Past stop u u' :=
  h.resolve_left fun hlive => Nat.not_le_of_lt hlive.lt_stop hstop

/-- The pair that opens a mapping is all of it where the text ends. -/
theorem Opens.readAlone {u' : Layout} (h : Opens m s' (.ok (ts, u'))) (hf : Tree.hasFaultList ts = false)
    (hpast : Layout.Past stop u u') (hmore : s'.rest ≠ []) (hm : s'.rest.length ≤ m) :
    ReadAlone m s' .blockMapping := by
  obtain ⟨k, rfl⟩ : ∃ k, m = k + 1 := by
    have : 0 < s'.rest.length := List.length_pos_of_ne_nil hmore
    exact ⟨m - 1, by omega⟩
  have hrest : (Rules.ofDepth (k + 1)).pairs (Indent.top.nested s'.column false) u' =
      .ok (u'.comments, u'.settle) := by
    change blockPairs _ _ _ = _
    rw [blockPairs, if_pos hpast.closes]
    rfl
  have hmapping : Syntax.mapping (.ofDepth (k + 1)) (Indent.top.nested s'.column false) (.ok (ts, u')) =
      .ok (.node .blockMapping (ts ++ u'.comments), u'.settle) :=
    mapping_eq_ok.mpr ⟨ts, u', u'.comments, rfl, hrest, rfl⟩
  refine ⟨.blockNode, ts ++ u'.comments, u'.settle, h.trans ?_, .inl rfl, by simp [hf, hpast.quiet],
    hpast.done, rfl⟩
  rw [hmapping]
  rfl

/-- A token that may be the first one of a text. -/
structure Heads (s : Layout) : Prop where
  begins : ∃ c r, s.rest = c :: r ∧ opensToken c = true ∧ c ≠ '%' ∧ c.toNat ≠ 0xFEFF
  noMarker : s.atDocument = false

theorem begins_of_at? {c : Char} (h : s.at? c = true)
    (hc : opensToken c = true ∧ c ≠ '%' ∧ c.toNat ≠ 0xFEFF) :
    ∃ c r, s.rest = c :: r ∧ opensToken c = true ∧ c ≠ '%' ∧ c.toNat ≠ 0xFEFF := by
  cases hr : s.rest with
  | nil => simp [Layout.at?, hr] at h
  | cons d r =>
    obtain rfl : d = c := by simpa [Layout.at?, hr] using h
    exact ⟨d, r, rfl, hc⟩

theorem flowContent_opens {inFlow : Bool} {x : Tree × Layout} (h : flowContent rules inFlow i s = .ok x) :
    ∃ c r, s.rest = c :: r ∧ opensToken c = true ∧ c ≠ '%' ∧ c.toNat ≠ 0xFEFF := by
  rcases flowContent_begin h with ⟨c, hc, hatc⟩ | hplain
  · refine begins_of_at? hatc ?_
    simp only [List.mem_cons, List.not_mem_nil, or_false] at hc
    rcases hc with rfl | rfl | rfl | rfl | rfl <;> decide
  · cases hr : s.rest with
    | nil =>
      rw [hr] at hplain
      cases hplain
    | cons c r =>
      rw [hr] at hplain
      obtain ⟨hvisible, hhash, hpercent, -⟩ := Plain.begins_cons hplain
      refine ⟨c, r, rfl, ?_, hpercent, ?_⟩
      · have hgap : (isNull c || isWhite c || isBreak c) = false := by
          by_contra hne
          rw [isVisible_eq_false_of_gap (Bool.not_eq_false _ ▸ hne)] at hvisible
          cases hvisible
        simp only [Bool.or_eq_false_iff] at hgap
        simp [opensToken, hgap, hhash]
      · intro hmark
        simp [isVisible, hmark] at hvisible

theorem PairRead.begins (h : PairRead rules j s p u) :
    ∃ c r, s.rest = c :: r ∧ opensToken c = true ∧ c ≠ '%' ∧ c.toNat ≠ 0xFEFF := by
  obtain ⟨hmark, -⟩ | ⟨key, v, ⟨i, q, t, hrow, -, -, halt⟩, -⟩ := h
  · rcases (Bool.or_eq_true _ _).mp hmark with h | h
    · exact begins_of_at? (Layout.at?_eq_of_atMark h) (by decide)
    · exact begins_of_at? (Layout.at?_eq_of_atMark h) (by decide)
  by_cases hat : s.atProperty = true
  · rcases (Bool.or_eq_true _ _).mp hat with h | h
    · exact begins_of_at? h (by decide)
    · exact begins_of_at? h (by decide)
  obtain ⟨rfl, rfl⟩ := rowProperties_none (eq_false_of_ne_true hat) hrow
  obtain ⟨hne, -⟩ | ⟨content, hcontent, -⟩ := halt
  · exact absurd rfl hne
  exact flowContent_opens hcontent

theorem Layout.atDocument_eq_false {c : Char} (h : s.at? c = true) (hc : c ≠ '-' ∧ c ≠ '.') :
    s.atDocument = false := by
  cases hr : s.rest with
  | nil => simp [Layout.at?, hr] at h
  | cons d r =>
    obtain rfl : d = c := by simpa [Layout.at?, hr] using h
    have hmarker : atDocumentMarker (d :: r) = false := by
      rcases r with _ | ⟨a, _ | ⟨b, r⟩⟩ <;> simp [atDocumentMarker, isMarker, hc]
    rw [Layout.atDocument, hr, hmarker, Bool.and_false]

theorem Layout.atDocument_of_dash (h : s.atMark '-' = true) : s.atDocument = false := by
  unfold Layout.atMark at h
  split at h
  · rename_i d r hr
    obtain ⟨hd, hgap⟩ := Bool.and_eq_true_iff.mp h
    obtain rfl : d = '-' := by simpa using hd
    have hmarker : atDocumentMarker ('-' :: r) = false := by
      rcases r with _ | ⟨a, _ | ⟨b, r⟩⟩
      · rfl
      · rfl
      · have ha : (a == '-') = false := ne_of_gap hgap rfl
        simp [atDocumentMarker, isMarker, ha]
    rw [Layout.atDocument, hr, hmarker, Bool.and_false]
  · cases h

theorem collection_node {isMapping : Bool} (h : collection rules isMapping i s = .ok (content, u)) :
    ∃ ts, content = .node (if isMapping then .flowMapping else .flowSequence) ts := by
  obtain ⟨rest, -, rfl⟩ := collection_eq_ok.mp h
  exact ⟨_, rfl⟩

theorem PairRead.node (h : PairRead rules j s p u) : ∃ parts, p = .node .blockMappingPair parts := by
  obtain ⟨hmark, h⟩ | ⟨key, v, -, h⟩ := h
  · cases pair_eq_ok.mp h with
    | marked | valueless | keyless => exact ⟨_, rfl⟩
    | keyed plain =>
      have hmark : (s.settle.atMark '?' || s.settle.atMark ':') = true := hmark
      rw [plainKey_no_mark plain] at hmark
      cases hmark
  · obtain ⟨value, -, hp⟩ := keyValue_eq_ok.mp h
    exact ⟨_, List.singleton_inj.mp hp⟩

/-- A collection in brackets is the first node of the text that begins with it. -/
theorem Starts.alone_brackets (hstart : Starts behind stop rows s s') {isMapping : Bool}
    (hat : s'.at? (if isMapping then '\x7b' else '[') = true)
    (h : collection (.ofDepth m) isMapping .top s' = .ok (content, u)) (hdone : u.rest = []) :
    nodeHere (.ofDepth m) .top false false {} s' = .ok ([.node .flowNode [content]], u) := by
  have hcontent : flowContent (.ofDepth m) false .top s' = .ok (content, u) :=
    (flowContent_of_bracket isMapping hat).trans h
  have halias : content.isAlias = false := by
    obtain ⟨ts, rfl⟩ := collection_node h
    cases isMapping <;> rfl
  have hkey : isKeyColon u s'.cursor.row = false := by simp [isKeyColon, Layout.atMark, hdone]
  have hnode : NodeHere (.ofDepth m) .top false false {} s' _ u :=
    .content hcontent (by rw [hkey, Bool.false_and]) (by rw [halias, Bool.false_and])
  rw [hstart.comments] at hnode
  exact nodeHere_eq_ok.mpr hnode

end YamlOutline.Syntax
