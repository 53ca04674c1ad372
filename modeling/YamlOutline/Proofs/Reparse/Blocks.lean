import YamlOutline.Proofs.Reparse.BlockScalar
import YamlOutline.Proofs.Reparse.Entries

/-! Nodes that are laid out by indentation, read twice: with the text around them and without. -/

namespace YamlOutline.Syntax
variable {cs behind : List Char} {stop rows m : Nat} {s s' t t' u u' : Layout} {i i' j j' : Indent}
  {rules : Rules} {key key' ts us : List Tree} {content : Tree} {p p' q q' r : Properties}

/-! ### Indentation in both readings -/

/-- The same collection in both readings, or the outermost one of the piece: nothing is around it there. -/
def Indent.Twin (i i' : Indent) : Prop :=
  i' = i ∨ i'.floor = i.floor ∧ i'.outer = 0 ∧ 0 < i.floor

namespace Indent

private theorem Twin.floor (h : Twin i i') : i'.floor = i.floor := by
  rcases h with rfl | h
  · rfl
  · exact h.1

private theorem Twin.nested (h : Twin i i') (column : Nat) (isSequence : Bool) :
    i'.nested column isSequence = i.nested column isSequence := by
  rw [Indent.nested, Indent.nested, h.floor]

private theorem Twin.level (h : Twin i i') : i'.level = i.level := by
  rw [Indent.level, Indent.level, h.floor]

end Indent

namespace Layout

private theorem Live.within_eq (h : Live behind stop rows s s') (hi : Indent.Twin i i') :
    s'.within i' = s.within i := by
  rw [Layout.within, Layout.within, h.fresh, h.leading, hi.floor]

private theorem Live.isLevel_eq (h : Live behind stop rows s s') (hi : Indent.Twin i i') :
    s'.isLevel i' = s.isLevel i := by
  rw [Layout.isLevel, Layout.isLevel, h.fresh, h.leading, h.tabbed, hi.floor]

private theorem Live.closes_eq (h : Live behind stop rows s s') : s'.closes i = s.closes i := by
  simp only [Layout.closes, Layout.dedents, h.atEnd, h.atDocument, h.column, h.tabbed, h.at?]

/-- A collection that goes on in the text goes on in the piece. -/
private theorem Live.closes_eq_false (h : Live behind stop rows s s') (hi : Indent.Twin i i')
    (hc : s.closes i = false) : s'.closes i' = false := by
  rcases hi with rfl | ⟨hfloor, houter, hpos⟩
  · rw [h.closes_eq, hc]
  · simp only [Layout.closes, Bool.or_eq_false_iff] at hc
    have hne : (i'.floor == i'.outer) = false := by
      rw [beq_eq_false_iff_ne]
      omega
    have hdedents : s'.dedents i' = false := by
      rw [Layout.dedents, hne, Bool.and_false, houter]
      simp
    rw [Layout.closes, ← h.atEnd, ← h.atDocument, hc.1.1, hc.1.2, hdedents]
    rfl

theorem Past.atEnd (h : Past stop s s') : s'.atEnd = true := by
  simp [Layout.atEnd, h.done]

theorem Past.closes (h : Past stop s s') : s'.closes i = true := by
  rw [Layout.closes, h.atEnd, Bool.true_or, Bool.true_or]

private theorem Twin.settle (h : Twin behind stop rows s s') :
    Twin behind stop rows s.settle s'.settle :=
  h.imp Live.settle fun h => ⟨h.done, h.past, rfl⟩

private theorem Twin.quiet (h : Twin behind stop rows s s') :
    Tree.hasFaultList s'.comments = false :=
  h.elim Live.quiet Past.quiet

theorem Live.isKeyColon (h : Live behind stop rows s s') (ht : Live behind stop rows t t') :
    isKeyColon t' s'.cursor.row = isKeyColon t s.cursor.row := by
  have hrow := h.cursor.row
  have hrow' := ht.cursor.row
  have heq : (t'.cursor.row == s'.cursor.row) = (t.cursor.row == s.cursor.row) := by
    rw [Bool.eq_iff_iff, beq_iff_eq, beq_iff_eq]
    omega
  rw [Syntax.isKeyColon, Syntax.isKeyColon, ht.atMark (by decide), ht.fresh, heq]

end Layout

variable {compact level : Bool}

/-- Where a node may end: before the rest of an entry or another entry of the collection around it,
behind the piece, or with the collection if both readings are in the same one. -/
def Ends (stop : Nat) (i i' : Indent) (t : Layout) : Prop :=
  t.isLevel i = true ∧ (t.closes i = true → t.atMark '-' = false) ∨ stop ≤ t.cursor.offset ∨
    i' = i ∧ t.closes i = true

/-- The other reading goes on in the same way, by at least one token. -/
def FollowsOn (behind : List Char) (stop rows : Nat) (s' t : Layout) (step : Step) : Prop :=
  ∃ ts' t', step = .ok (ts', t') ∧ Tree.hasFaultList ts' = false ∧
    Layout.Twin behind stop rows t t' ∧ t'.rest.length < s'.rest.length

private theorem FollowsOn.follows {step : Step} (h : FollowsOn behind stop rows s' t step) :
    Follows behind stop rows s' t step := by
  obtain ⟨ts', t', hstep, hf, htwin, hlt⟩ := h
  exact ⟨ts', t', hstep, hf, htwin, hlt.le⟩

private theorem FollowsAs.of_le {step : Except Fault (Tree × Layout)}
    (h : FollowsAs behind stop rows t' u content step)
    (hle : t'.rest.length ≤ s'.rest.length) : FollowsAs behind stop rows s' u content step := by
  obtain ⟨content', u', hstep, hk, hf, htwin, hlt⟩ := h
  exact ⟨content', u', hstep, hk, hf, htwin, by omega⟩

/-- A node in block style with its properties. -/
private theorem FollowsAs.wrap {step : Except Fault (Tree × Layout)} {node : Step}
    {comments : List Tree}
    (h : FollowsAs behind stop rows s' u content step) (hp : p.Alike p')
    (hcomments : Tree.hasFaultList comments = false)
    (hnode : ∀ {content u}, step = .ok (content, u) →
      Tree.hasFaultList (p'.wrap .blockNode comments content) = false →
      node = .ok (p'.wrap .blockNode comments content, u)) :
    FollowsOn behind stop rows s' u node := by
  obtain ⟨content', u', hread, -, hf, htwin, hlt⟩ := h
  have hf := hp.wrap_quiet (k := .blockNode) rfl hcomments hf
  exact ⟨_, u', hnode hread hf, hf, htwin, hlt⟩

theorem Clear.mono (h : Clear stop ts) (hsub : Tree.leavesList us ⊆ Tree.leavesList ts) : Clear stop us :=
  fun l hl => h l (hsub hl)

/-- The rules of some level, which the rules of any level that is high enough for the piece follow,
for nodes in block style too. -/
structure Rules.BlockFollowed (cs behind : List Char) (stop rows : Nat) (rules : Rules) : Prop
    extends Rules.Followed cs behind stop rows rules where
  value : ∀ {i i' compact level p p' s s' ts t m}, s.Sound cs → p.Sound cs →
    Layout.Twin behind stop rows s s' → p.Alike p' → Indent.Twin i i' →
    rules.value i compact level p s = .ok (ts, t) → Tree.hasFaultList ts = false → Clear stop ts →
    Ends stop i i' t → s'.rest.length < m →
    Follows behind stop rows s' t ((Rules.ofDepth m).value i' compact level p' s')
  items : ∀ {j j' s s' ts t m}, s.Sound cs → Layout.Twin behind stop rows s s' → Indent.Twin j j' →
    rules.items j s = .ok (ts, t) → Tree.hasFaultList ts = false → Clear stop ts →
    j' = j ∨ stop ≤ t.cursor.offset → s'.rest.length < m →
    Follows behind stop rows s' t ((Rules.ofDepth m).items j' s')
  pairs : ∀ {j j' s s' ts t m}, s.Sound cs → Layout.Twin behind stop rows s s' → Indent.Twin j j' →
    rules.pairs j s = .ok (ts, t) → Tree.hasFaultList ts = false → Clear stop ts →
    j' = j ∨ stop ≤ t.cursor.offset → s'.rest.length < m →
    Follows behind stop rows s' t ((Rules.ofDepth m).pairs j' s')

/-! ### Sequences -/

/-- Before the remaining entries of a collection, the last one has ended. -/
private theorem ends_before {opens : Bool} {entry : Step} {more : Layout → Step}
    (h : furtherEntries j s opens entry more = .ok (ts, u)) (hf : Tree.hasFaultList ts = false)
    (hopens : opens = true → s.isLevel j = true) (hend : j' = j ∨ stop ≤ u.cursor.offset) :
    Ends stop j j' s := by
  obtain ⟨hcloses, -, rfl⟩ | ⟨hmore, hopen, -⟩ := furtherEntries_cases h hf
  · rcases hend with hj | hpast
    · exact .inr (.inr ⟨hj, hcloses⟩)
    · exact .inr (.inl hpast)
  · exact .inl ⟨hopens hopen, by simp [hmore]⟩

private theorem ends_before_items (hrules : rules.Sound cs) (h : rules.items j s = .ok (ts, u))
    (hf : Tree.hasFaultList ts = false) (hend : j' = j ∨ stop ≤ u.cursor.offset) : Ends stop j j' s := by
  obtain ⟨n, rfl⟩ := hrules.level
  cases n with
  | zero => cases h
  | succ n =>
    have h : blockItems (.ofDepth n) j s = .ok (ts, u) := h
    exact ends_before (blockItems_eq ▸ h) hf (fun h => (Bool.and_eq_true_iff.mp h).1) hend

theorem ends_before_pairs (hrules : rules.Sound cs) (h : rules.pairs j s = .ok (ts, u))
    (hf : Tree.hasFaultList ts = false) (hend : j' = j ∨ stop ≤ u.cursor.offset) : Ends stop j j' s := by
  obtain ⟨n, rfl⟩ := hrules.level
  cases n with
  | zero => cases h
  | succ n =>
    have h : blockPairs (.ofDepth n) j s = .ok (ts, u) := h
    exact ends_before (blockPairs_eq ▸ h) hf id hend

/-- The remaining entries go on in the piece as in the text, if the next one and those after it do. -/
private theorem furtherEntries_followed (cs : List Char) {opens opens' : Bool} {entry entry' : Step}
    {more more' : Layout → Step}
    (htwin : Layout.Twin behind stop rows s s') (hj : Indent.Twin j j')
    (h : furtherEntries j s opens entry more = .ok (ts, u)) (hf : Tree.hasFaultList ts = false)
    (hc : Clear stop ts) (hend : j' = j ∨ stop ≤ u.cursor.offset)
    (hbegins : ∀ {first t}, opens = true → entry = .ok (first, t) → Tree.hasFaultList first = false →
      s.closes j = false → t.Sound cs ∧ Begins s first)
    (hopens : Layout.Live behind stop rows s s' → opens' = opens)
    (hentry : ∀ {first t rest}, Layout.Live behind stop rows s s' → opens = true →
      entry = .ok (first, t) → Tree.hasFaultList first = false → Clear stop first →
      more t = .ok (rest, u) → Tree.hasFaultList rest = false →
      FollowsOn behind stop rows s' t entry')
    (hmore : ∀ {t t' rest}, t.Sound cs → Layout.Twin behind stop rows t t' →
      more t = .ok (rest, u) → Tree.hasFaultList rest = false → Clear stop rest →
      t'.rest.length < s'.rest.length → Follows behind stop rows t' u (more' t')) :
    Follows behind stop rows s' u (furtherEntries j' s' opens' entry' more') := by
  obtain ⟨hcloses, rfl, rfl⟩ | ⟨hopen, ho, first, t, rest, hfirst, hrest, rfl, hff, hfr⟩ :=
    furtherEntries_cases h hf
  · have hcloses' : s'.closes j' = true := by
      rcases htwin with hlive | hpast
      · obtain rfl := hend.resolve_right (Nat.not_le_of_lt hlive.lt_stop)
        rwa [hlive.closes_eq]
      · exact hpast.closes
    rw [furtherEntries, if_pos hcloses']
    exact ⟨_, _, rfl, htwin.quiet, htwin.settle, Nat.le_refl _⟩
  · simp only [clear_append] at hc
    obtain ⟨ht, hb⟩ := hbegins ho hfirst hff hopen
    have hlive := htwin.live_of_lt (hb.lt_stop hc.1.2)
    obtain ⟨first', t', hfirst', hff', htwin', hlt⟩ := hentry hlive ho hfirst hff hc.1.2 hrest hfr
    obtain ⟨rest', u', hrest', hfr', hu, hle⟩ := hmore ht htwin' hrest hfr hc.2 hlt
    refine ⟨s'.comments ++ first' ++ rest', u', ?_, ?_, hu, by omega⟩
    · rw [furtherEntries, if_neg (by simp [hlive.closes_eq_false hj hopen]), if_pos (hopens hlive ▸ ho),
        hfirst']
      simp only [Layout.orSkip, bind_eq_ok, pure_eq_ok, Prod.exists, Prod.mk.injEq]
      exact ⟨first', t', rfl, rest', u', hrest', rfl, rfl⟩
    · simp [hlive.quiet, hff', hfr']

/-- The value behind a mark of its own, read in the piece as in the text. -/
private theorem markedValue_followed (hrules : rules.BlockFollowed cs behind stop rows) {k : Kind}
    (hs : (s.token k 1).2.Sound cs) (hlive : Layout.Live behind stop rows s s') (hj : Indent.Twin j j')
    (hk : (k ≠ .comment ∧ k ≠ .blockText) ∧ Tree.isFault (.leaf k ⟨0, 0⟩) = false)
    (h : rules.value j compact level {} (s.token k 1).2 = .ok (ts, u)) (hf : Tree.hasFaultList ts = false)
    (hc : Clear stop ((s.token k 1).1 ++ ts)) (hend : Ends stop j j' u) (hm : s'.rest.length ≤ m) :
    ∃ ts' u', (Rules.ofDepth m).value j' compact level {} (s'.token k 1).2 = .ok (ts', u') ∧
      Tree.hasFaultList ((s'.token k 1).1 ++ ts') = false ∧ Layout.Twin behind stop rows u u' ∧
      u'.rest.length < s'.rest.length := by
  rw [clear_append] at hc
  obtain ⟨htwin, hquiet, hlt⟩ := hlive.token hc.1 Nat.one_ne_zero hk.1 hk.2
  obtain ⟨ts', u', hvalue', hf', hu, hle⟩ :=
    hrules.value (m := m) hs Properties.none_sound htwin .none hj h hf hc.2 hend (by omega)
  exact ⟨ts', u', hvalue', by simp [hquiet, hf'], hu, by omega⟩

private theorem item_followed (hrules : rules.BlockFollowed cs behind stop rows) (hs : s.Sound cs)
    (hlive : Layout.Live behind stop rows s s') (hj : Indent.Twin j j')
    (h : blockItems.item rules j s = .ok (ts, u)) (hf : Tree.hasFaultList ts = false)
    (hc : Clear stop ts) (hend : Ends stop j j' u) (hm : s'.rest.length ≤ m) :
    FollowsOn behind stop rows s' u (blockItems.item (.ofDepth m) j' s') := by
  obtain ⟨value, hvalue, rfl⟩ := item_eq_ok.mp h
  rw [clear_node] at hc
  simp only [Tree.hasFaultList_cons, Tree.hasFault_node, Tree.hasFaultList_append,
    Bool.or_eq_false_iff] at hf
  obtain ⟨value', u', hvalue', hf', hu, hlt⟩ := markedValue_followed (m := m) hrules
    (Layout.mark_adds hs.settle 1).sound hlive.settle hj (by decide) hvalue hf.1.2.2 hc.1 hend hm
  exact ⟨_, u', item_eq_ok.mpr ⟨value', hvalue', rfl⟩, by rw [Tree.hasFaultList_cons, Tree.hasFault_node, hf']; rfl,
    hu, hlt⟩

theorem sequence_followed (hrules : rules.BlockFollowed cs behind stop rows) (hs : s.Sound cs)
    (hlive : Layout.Live behind stop rows s s') (hj : Indent.Twin j j') (hat : s.atMark '-' = true)
    (h : sequence rules j s = .ok (content, u)) (hf : content.hasFault = false)
    (hc : Clear stop [content]) (hend : j' = j ∨ stop ≤ u.cursor.offset) (hm : s'.rest.length ≤ m) :
    FollowsAs behind stop rows s' u content (sequence (.ofDepth m) j' s') := by
  obtain ⟨first, t, rest, hfirst, hrest, rfl⟩ := sequence_eq_ok.mp h
  simp only [clear_node, clear_append, clear_nil, and_true] at hc
  simp only [Tree.hasFault_node, Tree.hasFaultList_append, Bool.or_eq_false_iff] at hf
  obtain ⟨hadds, -⟩ := blockItems_item_adds hrules.sound hs hat hfirst hf.2.1
  have hnext := ends_before_items hrules.sound hrest hf.2.2 hend
  obtain ⟨first', t', hfirst', hf', ht, hlt⟩ :=
    item_followed hrules hs hlive hj hfirst hf.2.1 hc.1 hnext hm
  obtain ⟨rest', u', hrest', hf'', hu, hle⟩ :=
    hrules.items (m := m) hadds.sound ht hj hrest hf.2.2 hc.2 hend (by omega)
  refine ⟨_, u', sequence_eq_ok.mpr ⟨first', t', rest', hfirst', hrest', rfl⟩, rfl, ?_, hu, by omega⟩
  simp [hf', hf'', Tree.isFault, Tree.kind]

private theorem blockItems_followed (hrules : rules.BlockFollowed cs behind stop rows)
    (hs : s.Sound cs)
    (htwin : Layout.Twin behind stop rows s s') (hj : Indent.Twin j j')
    (h : blockItems rules j s = .ok (ts, u)) (hf : Tree.hasFaultList ts = false)
    (hc : Clear stop ts) (hend : j' = j ∨ stop ≤ u.cursor.offset) (hm : s'.rest.length ≤ m) :
    Follows behind stop rows s' u (blockItems (.ofDepth m) j' s') := by
  rw [blockItems_eq] at h ⊢
  refine furtherEntries_followed cs htwin hj h hf hc hend ?_ ?_ ?_ ?_
  · intro first t ho hfirst hff _
    obtain ⟨hadds, hb⟩ :=
      blockItems_item_adds hrules.sound hs (Bool.and_eq_true_iff.mp ho).2 hfirst hff
    exact ⟨hadds.sound, hb⟩
  · intro hlive
    rw [hlive.isLevel_eq hj, hlive.atMark (by decide)]
  · intro first t rest hlive _ hfirst hff hcf hrest hfr
    exact item_followed hrules hs hlive hj hfirst hff hcf
      (ends_before_items hrules.sound hrest hfr hend) hm
  · intro t t' rest ht htwin' hrest hfr hcr hlt
    exact hrules.items ht htwin' hj hrest hfr hcr hend (by omega)

/-! ### Keys -/

private theorem Layout.Twin.isKeyColon_eq_false (hlive : Layout.Live behind stop rows s s')
    (htwin : Layout.Twin behind stop rows t t') (h : isKeyColon t s.cursor.row = false) :
    isKeyColon t' s'.cursor.row = false := by
  rcases htwin with ht | ht
  · rwa [hlive.isKeyColon ht]
  · simp [isKeyColon, Layout.atMark, ht.done]

theorem rowProperties_followed (hs : s.Sound cs) (hlive : Layout.Live behind stop rows s s')
    (h : rowProperties s = .ok (q, t)) (hc : Clear stop q.trees) :
    ∃ q' t', rowProperties s' = .ok (q', t') ∧ q.Alike q' ∧ Layout.Twin behind stop rows t t' ∧
      t'.rest.length ≤ s'.rest.length ∧ (q.trees ≠ [] → t'.rest.length < s'.rest.length) := by
  obtain ⟨-, hbefore, -, -⟩ := rowProperties_grown hs h
  cases rowProperties_eq_ok.mp h with
  | none unfit =>
    exact ⟨{}, s', rowProperties_eq_ok.mpr (.none (hlive.atProperty ▸ unfit)), .none, .inl hlive, Nat.le_refl _,
      fun hne => absurd rfl hne⟩
  | some fit read =>
    obtain ⟨q', t', hread, hq', htwin, hlt⟩ := read.followed (fun t => !t.fresh) hs.settle
      hlive.settle fit (fun ht hfit => by rwa [← ht.fresh]) (fun ht _ hfit => by rwa [← ht.fresh])
      (by simpa [hbefore] using hc)
    have hlt : t'.rest.length < s'.rest.length := hlt
    exact ⟨q', t', rowProperties_eq_ok.mpr (.some (hlive.atProperty ▸ fit) hread), hq', htwin, hlt.le, fun _ => hlt⟩

/-- The colon of a pair stands in the piece. -/
theorem colon_before (hat : s.atMark ':' = true) (hc : Clear stop (s.token .valueMark 1).1) :
    s.cursor.offset < stop :=
  (Layout.token_begins (Layout.rest_ne_nil_of_atMark hat) Nat.one_ne_zero (by simp)).lt_stop hc

/-- The content of a key that has its colon in the piece. -/
theorem keyContent_followed (hrules : rules.Followed cs behind stop rows) (hs : s.Sound cs)
    (hlive : Layout.Live behind stop rows s s') (hi : i'.floor ≤ i.floor)
    (h : flowContent rules false i s = .ok (content, u)) (hf : content.hasFault = false)
    (hc : Clear stop [content]) (hfresh : u.fresh = false) (hu : u.cursor.offset < stop)
    (hm : s'.rest.length ≤ m) :
    ∃ content' u', flowContent (.ofDepth m) false i' s' = .ok (content', u') ∧
      content'.isAlias = content.isAlias ∧ content'.hasFault = false ∧
      Layout.Live behind stop rows u u' ∧ u'.rest.length < s'.rest.length := by
  obtain ⟨content', u', hcontent', hk, hf', htwin, hlt⟩ := flowContent_followed (m := m) hrules hs hlive
    (.inr ⟨hi, .inl (by simp [Layout.within, hfresh])⟩) h hf hc hm
  exact ⟨content', u', hcontent', by rw [Tree.isAlias, Tree.isAlias, hk], hf', htwin.live_of_lt hu, hlt⟩

private theorem plainKey_followed (hrules : rules.Followed cs behind stop rows) (hs : s.Sound cs)
    (hcomments : s.comments = []) (hlive : Layout.Live behind stop rows s s') (hi : i'.floor ≤ i.floor)
    (h : plainKey rules i s = .ok (key, u)) (hf : Tree.hasFaultList key = false)
    (hc : Clear stop key) (hu : u.cursor.offset < stop) (hm : s'.rest.length ≤ m) :
    ∃ key' u', plainKey (.ofDepth m) i' s' = .ok (key', u') ∧ Tree.hasFaultList key' = false ∧
      Layout.Live behind stop rows u u' ∧ u'.rest.length < s'.rest.length := by
  cases plainKey_eq_ok.mp h with
  | bare properties some colon =>
    obtain ⟨q', t', properties', hq', htwin, -, hlt⟩ :=
      rowProperties_followed hs hlive properties (hc.mono (by simp [Properties.leavesList_bare]))
    have ht := htwin.live_of_lt hu
    exact ⟨q'.bare, t', plainKey_eq_ok.mpr (.bare properties' (hq'.isEmpty.trans some)
      ((hlive.isKeyColon ht).trans colon)), hq'.bare_quiet, ht, hlt (by simpa using some)⟩
  | wrapped properties inRow read alone colon =>
    obtain ⟨-, -, hadds, -⟩ := rowProperties_grown hs properties
    have hts := (hadds (.inr hcomments)).sound
    have hfc := Properties.hasFault_of_wrap hf
    simp only [Properties.clear_wrap, clear_append] at hc
    obtain ⟨q', t', properties', hq', htwin, hle, -⟩ := rowProperties_followed hs hlive properties hc.1.1.2
    have ht := htwin.live_of_lt
      (Nat.lt_of_le_of_lt (flowContent_adds hrules.sound hts read hfc).1.onward hu)
    obtain ⟨content', u', read', halias, hfc', hlive', hlt⟩ := keyContent_followed (m := m) hrules
      hts ht hi read hfc hc.2 (isKeyColon_colon colon).2 hu (by omega)
    exact ⟨q'.wrap .flowNode [] content', u', plainKey_eq_ok.mpr (.wrapped properties'
      (by rw [← ht.fresh, hq'.isEmpty, inRow]) read' (by rw [halias, hq'.isEmpty, alone])
      ((hlive.isKeyColon hlive').trans colon)), hq'.wrap_quiet rfl rfl hfc', hlive', by omega⟩

/-! ### Pairs and mappings -/

theorem keyValue_followed (hrules : rules.BlockFollowed cs behind stop rows) (hu : u.Sound cs)
    (hlive : Layout.Live behind stop rows u u') (hj : Indent.Twin j j')
    (h : keyValue rules j key u = .ok (ts, t)) (hf : Tree.hasFaultList ts = false)
    (hf' : Tree.hasFaultList key' = false) (hc : Clear stop ts) (hend : Ends stop j j' t)
    (hm : u'.rest.length ≤ m) :
    FollowsOn behind stop rows u' t (keyValue (.ofDepth m) j' key' u') := by
  obtain ⟨value, hvalue, rfl⟩ := keyValue_eq_ok.mp h
  rw [clear_node, List.append_assoc, clear_append] at hc
  simp only [Tree.hasFaultList_cons, Tree.hasFault_node, Tree.hasFaultList_append,
    Bool.or_eq_false_iff] at hf
  obtain ⟨value', t', hvalue', hfv, ht, hlt⟩ := markedValue_followed (m := m) hrules
    (Layout.colon_adds hu).sound hlive hj (by decide) hvalue hf.1.2.2 hc.1.2 hend hm
  refine ⟨_, t', keyValue_eq_ok.mpr ⟨value', hvalue', rfl⟩, ?_, ht, hlt⟩
  rw [Tree.hasFaultList_cons, Tree.hasFault_node, List.append_assoc, Tree.hasFaultList_append, hf', hfv]
  rfl

theorem pair_followed (hrules : rules.BlockFollowed cs behind stop rows) (hs : s.Sound cs)
    (hlive : Layout.Live behind stop rows s s') (hj : Indent.Twin j j')
    (h : pair rules j s = .ok (ts, u)) (hf : Tree.hasFaultList ts = false) (hc : Clear stop ts)
    (hend : Ends stop j j' u) (hm : s'.rest.length ≤ m) :
    FollowsOn behind stop rows s' u (pair (.ofDepth m) j' s') := by
  have hmark := Layout.mark_adds hs.settle 1
  have quiet {parts : List Tree} (hparts : Tree.hasFaultList parts = false) :
      Tree.hasFaultList [.node .blockMappingPair parts] = false := by
    rw [Tree.hasFaultList_cons, Tree.hasFault_node, hparts]
    rfl
  cases pair_eq_ok.mp h with
  | marked question keyRead colon valueRead =>
    rw [clear_node, List.append_assoc, clear_append] at hc
    simp only [Tree.hasFaultList_cons, Tree.hasFault_node, Tree.hasFaultList_append,
      Bool.or_eq_false_iff] at hf
    obtain ⟨hat, hlevel⟩ := Bool.and_eq_true_iff.mp colon
    have hts := (hrules.sound.value hmark.sound Properties.none_sound keyRead hf.1.2.1.1.2).1.sound
    obtain ⟨key', t', keyRead', hfk, ht, hlt⟩ := markedValue_followed (m := m) hrules hmark.sound hlive.settle
      hj (by decide) keyRead hf.1.2.1.1.2 hc.1.1
      (.inl ⟨hlevel, fun _ => Layout.atMark_unique hat (by decide)⟩) hm
    have hlt : t'.rest.length < s'.rest.length := hlt
    have ht := ht.live_of_lt (colon_before hat (clear_append.mp hc.1.2).1)
    obtain ⟨value', u', valueRead', hfv, hu, hlt'⟩ := markedValue_followed (m := m) hrules
      (Layout.colon_adds hts).sound ht hj (by decide) valueRead hf.1.2.2 hc.1.2 hend (by omega)
    have colon' : (t'.atMark ':' && t'.isLevel j') = true := by
      rwa [← ht.atMark (by decide), ht.isLevel_eq hj]
    refine ⟨_, u', pair_eq_ok.mpr (.marked ((hlive.atMark (by decide)).symm.trans question) keyRead' colon' valueRead'),
      quiet ?_, hu, by omega⟩
    rw [List.append_assoc, Tree.hasFaultList_append, hfk, hfv]
    rfl
  | valueless question read noColon =>
    rw [clear_node] at hc
    simp only [Tree.hasFaultList_cons, Tree.hasFault_node, Tree.hasFaultList_append,
      Bool.or_eq_false_iff] at hf
    obtain ⟨key', t', read', hfk, ht, hlt⟩ := markedValue_followed (m := m) hrules hmark.sound hlive.settle hj
      (by decide) read hf.1.2.2 hc.1 hend hm
    have noColon' : (t'.atMark ':' && t'.isLevel j') = false := by
      rcases ht with ht | ht
      · rwa [← ht.atMark (by decide), ht.isLevel_eq hj]
      · simp [Layout.atMark, ht.done]
    have question' := (hlive.atMark (by decide)).symm.trans question
    exact ⟨_, t', pair_eq_ok.mpr (.valueless question' read' noColon'), quiet hfk, ht, hlt⟩
  | keyless colon read =>
    rw [clear_node] at hc
    simp only [Tree.hasFaultList_cons, Tree.hasFault_node, Tree.hasFaultList_append,
      Bool.or_eq_false_iff] at hf
    obtain ⟨value', u', read', hfv, hu, hlt⟩ := markedValue_followed (m := m) hrules
      (Layout.colon_adds hs.settle).sound hlive.settle hj (by decide) read hf.1.2.2 hc.1 hend hm
    exact ⟨_, u', pair_eq_ok.mpr (.keyless ((hlive.atMark (by decide)).symm.trans colon) read'), quiet hfv, hu, hlt⟩
  | @keyed key _ v _ plain read =>
    have hfk := key_hasFault read hf
    have hv := (keyed_adds hrules.sound hs.settle (keyed_of_plainKey plain) hfk).1.sound
    obtain ⟨hck, hbefore⟩ : Clear stop key ∧ v.cursor.offset < stop := by
      obtain ⟨value, -, rfl⟩ := keyValue_eq_ok.mp read
      simp only [clear_node, clear_append, clear_nil, and_true] at hc
      obtain ⟨_, _, _, -, hcolon, -⟩ := keyed_of_plainKey plain
      exact ⟨hc.1.1, colon_before hcolon hc.1.2⟩
    obtain ⟨key', v', plain', hfk', hlive', hlt⟩ := plainKey_followed (m := m) hrules.toFollowed hs.settle rfl
      hlive.settle hj.floor.le plain hfk hck hbefore hm
    have hlt : v'.rest.length < s'.rest.length := hlt
    obtain ⟨ts', u', read', hfv, hu, hlt'⟩ := keyValue_followed (m := m) hrules hv hlive' hj read hf hfk' hc
      hend (by omega)
    exact ⟨ts', u', pair_eq_ok.mpr (.keyed plain' read'), hfv, hu, by omega⟩

private theorem mapping_followed (hrules : rules.BlockFollowed cs behind stop rows)
    {first first' : Step}
    (hsound : ∀ {us t}, first = .ok (us, t) → Tree.hasFaultList us = false → t.Sound cs)
    (hfirst : ∀ {us t}, first = .ok (us, t) → Tree.hasFaultList us = false → Clear stop us →
      Ends stop j j' t → FollowsOn behind stop rows s' t first')
    (hj : Indent.Twin j j') (h : mapping rules j first = .ok (content, u))
    (hf : content.hasFault = false) (hc : Clear stop [content])
    (hend : j' = j ∨ stop ≤ u.cursor.offset) (hm : s'.rest.length ≤ m) :
    FollowsAs behind stop rows s' u content (mapping (.ofDepth m) j' first') := by
  obtain ⟨us, t, rest, hus, hrest, rfl⟩ := mapping_eq_ok.mp h
  simp only [clear_node, clear_append, clear_nil, and_true] at hc
  simp only [Tree.hasFault_node, Tree.hasFaultList_append, Bool.or_eq_false_iff] at hf
  obtain ⟨us', t', hus', hf', ht, hlt⟩ :=
    hfirst hus hf.2.1 hc.1 (ends_before_pairs hrules.sound hrest hf.2.2 hend)
  obtain ⟨rest', u', hrest', hf'', hu, hle⟩ :=
    hrules.pairs (m := m) (hsound hus hf.2.1) ht hj hrest hf.2.2 hc.2 hend (by omega)
  refine ⟨_, u', mapping_eq_ok.mpr ⟨us', t', rest', hus', hrest', rfl⟩, rfl, ?_, hu, by omega⟩
  simp [hf', hf'', Tree.isFault, Tree.kind]

/-- The mapping whose first key has its colon at `t`. -/
private theorem keyedMapping_before (hcolon : t.atMark ':' = true)
    (h : mapping rules j (keyValue rules j key t) = .ok (content, u)) (hc : Clear stop [content]) :
    t.cursor.offset < stop := by
  obtain ⟨us, v, rest, hus, -, rfl⟩ := mapping_eq_ok.mp h
  obtain ⟨value, -, rfl⟩ := keyValue_eq_ok.mp hus
  simp only [clear_node, clear_append, clear_nil, and_true] at hc
  exact colon_before hcolon hc.1.1.2

private theorem keyValue_sound (hrules : rules.Sound cs) (ht : t.Sound cs)
    (h : keyValue rules j key t = .ok (ts, u)) (hf : Tree.hasFaultList ts = false) : u.Sound cs := by
  obtain ⟨value, hvalue, rfl⟩ := keyValue_eq_ok.mp h
  simp only [Tree.hasFaultList_cons, Tree.hasFault_node, Tree.hasFaultList_append,
    Bool.or_eq_false_iff] at hf
  exact (hrules.value (Layout.colon_adds ht).sound Properties.none_sound hvalue hf.1.2.2).1.sound

private theorem keyedMapping_followed (hrules : rules.BlockFollowed cs behind stop rows)
    (ht : t.Sound cs)
    (hlive : Layout.Live behind stop rows t t') (hf' : Tree.hasFaultList key' = false)
    (h : mapping rules j (keyValue rules j key t) = .ok (content, u)) (hf : content.hasFault = false)
    (hc : Clear stop [content]) (hm : t'.rest.length ≤ m) :
    FollowsAs behind stop rows t' u content (mapping (.ofDepth m) j (keyValue (.ofDepth m) j key' t')) :=
  mapping_followed hrules (keyValue_sound hrules.sound ht)
    (fun hfirst hff hcf hend => keyValue_followed hrules ht hlive (.inl rfl) hfirst hff hf' hcf hend hm)
    (.inl rfl) h hf hc (.inl rfl) hm

private theorem blockPairs_followed (hrules : rules.BlockFollowed cs behind stop rows)
    (hs : s.Sound cs)
    (htwin : Layout.Twin behind stop rows s s') (hj : Indent.Twin j j')
    (h : blockPairs rules j s = .ok (ts, u)) (hf : Tree.hasFaultList ts = false)
    (hc : Clear stop ts) (hend : j' = j ∨ stop ≤ u.cursor.offset) (hm : s'.rest.length ≤ m) :
    Follows behind stop rows s' u (blockPairs (.ofDepth m) j' s') := by
  rw [blockPairs_eq] at h ⊢
  refine furtherEntries_followed cs htwin hj h hf hc hend ?_ ?_ ?_ ?_
  · intro first t hlevel hfirst hff hopen
    obtain ⟨hatEnd, hdoc⟩ := Layout.closes_eq_false hopen
    obtain ⟨hadds, hb⟩ := pair_adds hrules.sound hs (hs.opens hlevel hatEnd) hdoc hfirst hff
    exact ⟨hadds.sound, hb⟩
  · intro hlive
    rw [hlive.isLevel_eq hj]
  · intro first t rest hlive _ hfirst hff hcf hrest hfr
    exact pair_followed hrules hs hlive hj hfirst hff hcf
      (ends_before_pairs hrules.sound hrest hfr hend) hm
  · intro t t' rest ht htwin' hrest hfr hcr hlt
    exact hrules.pairs ht htwin' hj hrest hfr hcr hend (by omega)

/-! ### Nodes -/

theorem Properties.Alike.join? (hp : p.Alike p') (hq : q.Alike q') {comments comments' : List Tree}
    (hquiet : Tree.hasFaultList comments' = false)
    (h : p.join? { q with before := comments } = some r) :
    ∃ r', p'.join? { q' with before := comments' } = some r' ∧ r.Alike r' := by
  unfold Properties.join? at h ⊢
  simp only [hp.anchor, hp.tag, hq.anchor, hq.tag, hp.isEmpty] at h ⊢
  split at h
  · cases h
  rename_i hfits
  rw [if_neg hfits]
  split at h <;> cases h
  · rename_i hnone
    rw [if_pos hnone]
    exact ⟨_, rfl, hq.isEmpty, rfl, rfl, by simp [hp.quietBefore, hquiet], hq.quiet⟩
  · rename_i hsome
    have hsome' : ¬p'.trees.isEmpty = true := by rwa [hp.isEmpty]
    rw [if_neg hsome]
    refine ⟨_, rfl, ?_, rfl, rfl, hp.quietBefore, by simp [hp.quiet, hquiet, hq.quiet]⟩
    rw [Bool.eq_iff_iff]
    simp_all

/-- Where content is no key in the text, it is none in the piece. -/
private theorem noKey_followed (hlive : Layout.Live behind stop rows s s')
    (htwin : Layout.Twin behind stop rows u u')
    (h : (isKeyColon u s.cursor.row && ((compact || s.fresh) && !s.tabbed)) = false) :
    (isKeyColon u' s'.cursor.row && ((compact || s'.fresh) && !s'.tabbed)) = false := by
  rw [← hlive.fresh, ← hlive.tabbed]
  rw [Bool.and_eq_false_iff] at h ⊢
  exact h.imp_left (Layout.Twin.isKeyColon_eq_false hlive htwin)

private theorem content_followed (hrules : rules.BlockFollowed cs behind stop rows)
    (ht : t.Sound cs)
    (htwin : Layout.Twin behind stop rows t t') (hi : Indent.Twin i i')
    (h : flowContent rules false i t = .ok (content, u)) (hf : content.hasFault = false)
    (hc : Clear stop [content]) (hm : t'.rest.length ≤ m) :
    Layout.Live behind stop rows t t' ∧
      FollowsAs behind stop rows t' u content (flowContent (.ofDepth m) false i' t') := by
  have hl := htwin.live_of_lt ((flowContent_adds hrules.sound ht h hf).2.lt_stop hc)
  exact ⟨hl, flowContent_followed hrules.toFollowed ht hl (.inl hi.floor) h hf hc hm⟩

/-- A mapping whose first key has content, with the properties `q` before that. -/
private theorem keyedContent_followed (hrules : rules.BlockFollowed cs behind stop rows)
    {v : Layout} {x : Tree}
    (hlive : Layout.Live behind stop rows s s') (ht : t.Sound cs) (htwin : Layout.Twin behind stop rows t t')
    (hle : t'.rest.length ≤ s'.rest.length) (hq' : q.Alike q') (hi : Indent.Twin i i')
    (hkey : flowContent rules false i t = .ok (x, v)) (hcolon : isKeyColon v s.cursor.row = true)
    (h : mapping rules j (keyValue rules j (q.wrap .flowNode [] x) v) = .ok (content, u))
    (hf : content.hasFault = false) (hc : Clear stop [content]) (hm : s'.rest.length ≤ m) :
    ∃ x' v', flowContent (.ofDepth m) false i' t' = .ok (x', v') ∧ x'.isAlias = x.isAlias ∧
      isKeyColon v' s'.cursor.row = true ∧ Layout.Live behind stop rows t t' ∧
      FollowsAs behind stop rows s' u content
        (mapping (.ofDepth m) j (keyValue (.ofDepth m) j (q'.wrap .flowNode [] x') v')) := by
  obtain ⟨hleaves, hfault⟩ := leaves_of_mapping h
  have hfx := Properties.hasFault_of_wrap (hfault hf)
  have hcx : Clear stop (q.wrap .flowNode [] x) := hc.mono (by simpa using hleaves)
  simp only [Properties.clear_wrap, clear_append] at hcx
  obtain ⟨hl, x', v', hkey', hk, hfx', hv, hlt⟩ :=
    content_followed (m := m) hrules ht htwin hi hkey hfx hcx.2 (by omega)
  have hv := hv.live_of_lt (keyedMapping_before (isKeyColon_colon hcolon).1 h hc)
  have hsound := (flowContent_adds hrules.sound ht hkey hfx).1.sound
  have hmapping := keyedMapping_followed (m := m) hrules hsound hv
    (hq'.wrap_quiet (k := .flowNode) rfl (rfl : Tree.hasFaultList [] = false) hfx') h hf hc (by omega)
  exact ⟨x', v', hkey', by rw [Tree.isAlias, Tree.isAlias, hk], (hlive.isKeyColon hv).trans hcolon, hl,
    hmapping.of_le (by omega)⟩

private theorem nodeAfter_followed (hrules : rules.BlockFollowed cs behind stop rows)
    (hs : s.Sound cs)
    (hlive : Layout.Live behind stop rows s s') (hp : p.Sound cs) (hp' : p.Alike p')
    (hq : q.Sound cs) (hq' : q.Alike q') (hadds : Adds cs s.settle [] q.trees t)
    (htwin : Layout.Twin behind stop rows t t') (hlt : t'.rest.length < s'.rest.length)
    (hi : Indent.Twin i i') (h : nodeAfter rules i compact level p q s t = .ok (ts, u))
    (hf : Tree.hasFaultList ts = false) (hc : Clear stop ts) (hend : Ends stop i i' u)
    (hm : s'.rest.length ≤ m) :
    FollowsOn behind stop rows s' u (nodeAfter (.ofDepth m) i' compact level p' q' s' t') := by
  have ht := hadds.sound
  have hmayOpen : ((compact || s'.fresh) && !s'.tabbed) = ((compact || s.fresh) && !s.tabbed) := by
    rw [hlive.fresh, hlive.tabbed]
  have hnested : i'.nested s'.column false = i.nested s.column false := by rw [hi.nested, hlive.column]
  cases (nodeAfter_eq_ok hf).mp h with
  | later ends join read =>
    obtain ⟨r', join', hrr⟩ := hp'.join? hq' hlive.quiet join
    obtain ⟨hrs, -, -⟩ := Adds.join hs hp hq hadds join
    obtain ⟨ts', u', read', hf', hu, hle⟩ :=
      hrules.value (m := m) ht hrs htwin hrr hi read hf hc hend (by omega)
    have ends' : (t'.fresh || t'.atEnd) = true := by
      rcases htwin with hl | hl
      · rwa [← hl.fresh, ← hl.atEnd]
      · rw [hl.atEnd, Bool.or_true]
    exact ⟨ts', u', (nodeAfter_eq_ok hf').mpr (.later ends' join' read'), hf', hu, by omega⟩
  | keyless inRow colon opens read =>
    simp only [Properties.clear_wrap, clear_append] at hc
    have hl := htwin.live_of_lt (keyedMapping_before colon read hc.2)
    have hmapping := keyedMapping_followed (m := m) hrules ht hl hq'.bare_quiet read
      (Properties.hasFault_of_wrap hf) hc.2 (by omega)
    refine (hmapping.of_le hlt.le).wrap hp' hlive.quiet fun read' hf' => (nodeAfter_eq_ok hf').mpr ?_
    exact .keyless (hl.fresh ▸ inRow) ((hl.atMark (by decide)).symm.trans colon) (hmayOpen.trans opens) (hnested ▸ read')
  | scalar inRow header read join =>
    simp only [Properties.clear_wrap, clear_append] at hc
    have hl := htwin.live_of_lt ((blockScalar_adds ht read).2.lt_stop hc.2)
    obtain ⟨r', join', hrr⟩ := hp'.join? hq' hlive.quiet join
    have hread := (blockScalar_followed hl hi.floor read hc.2).of_le hlt.le
    refine hread.wrap hrr (rfl : Tree.hasFaultList [] = false) fun read' hf' =>
      (nodeAfter_eq_ok hf').mpr ?_
    exact .scalar (hl.fresh ▸ inRow) (by rwa [← hl.at?, ← hl.at?]) read' join'
  | keyed inRow keyRead noAlias colon opens read =>
    simp only [Properties.clear_wrap, clear_append] at hc
    obtain ⟨x', v', keyRead', halias, colon', hl, hmapping⟩ := keyedContent_followed (m := m) hrules hlive ht htwin
      hlt.le hq' hi keyRead colon read (Properties.hasFault_of_wrap hf) hc.2 hm
    refine hmapping.wrap hp' hlive.quiet fun read' hf' => (nodeAfter_eq_ok hf').mpr ?_
    exact .keyed (hl.fresh ▸ inRow) keyRead' (halias.trans noAlias) colon' (hmayOpen.trans opens) (hnested ▸ read')
  | content inRow read noAlias noKey join =>
    simp only [Properties.clear_wrap, clear_append] at hc
    obtain ⟨hl, content', v', read', hk, hfc, hv, hlt'⟩ :=
      content_followed (m := m) hrules ht htwin hi read (Properties.hasFault_of_wrap hf) hc.2 (by omega)
    obtain ⟨r', join', hrr⟩ := hp'.join? hq' hlive.quiet join
    have hf' := hrr.wrap_quiet (k := .flowNode) rfl (rfl : Tree.hasFaultList [] = false) hfc
    refine ⟨_, v', (nodeAfter_eq_ok hf').mpr ?_, hf', hv, by omega⟩
    exact .content (hl.fresh ▸ inRow) read' (by rwa [Tree.isAlias, hk]) (noKey_followed hlive hv noKey) join'

private theorem nodeHere_followed (hrules : rules.BlockFollowed cs behind stop rows)
    (hs : s.Sound cs)
    (hdoc : s.atDocument = false) (hlive : Layout.Live behind stop rows s s') (hp : p.Sound cs)
    (hp' : p.Alike p') (hi : Indent.Twin i i') (h : nodeHere rules i compact level p s = .ok (ts, u))
    (hf : Tree.hasFaultList ts = false) (hc : Clear stop ts) (hend : Ends stop i i' u)
    (hm : s'.rest.length ≤ m) :
    FollowsOn behind stop rows s' u (nodeHere (.ofDepth m) i' compact level p' s') := by
  have hmayOpen : ((compact || s'.fresh) && !s'.tabbed) = ((compact || s.fresh) && !s.tabbed) := by
    rw [hlive.fresh, hlive.tabbed]
  have hnested (isSequence : Bool) : i'.nested s'.column isSequence = i.nested s.column isSequence := by
    rw [hi.nested, hlive.column]
  cases nodeHere_eq_ok.mp h with
  | sequence dash opens read =>
    simp only [Properties.clear_wrap, clear_append] at hc
    refine (sequence_followed hrules hs hlive (.inl rfl) dash read (Properties.hasFault_of_wrap hf)
      hc.2 (.inl rfl) hm).wrap hp' hlive.quiet fun read' _ => nodeHere_eq_ok.mpr ?_
    exact .sequence ((hlive.atMark (by decide)).symm.trans dash) (hmayOpen.trans opens) (hnested true ▸ read')
  | marked mark opens read =>
    simp only [Properties.clear_wrap, clear_append] at hc
    have hmapping := mapping_followed (m := m) hrules
      (fun hfirst hff => (pair_adds hrules.sound hs rfl hdoc hfirst hff).1.sound)
      (fun hfirst hff hcf hendf => pair_followed hrules hs hlive (.inl rfl) hfirst hff hcf hendf hm)
      (.inl rfl) read (Properties.hasFault_of_wrap hf) hc.2 (.inl rfl) hm
    refine hmapping.wrap hp' hlive.quiet fun read' _ => nodeHere_eq_ok.mpr ?_
    refine .marked ?_ (hmayOpen.trans opens) (hnested false ▸ read')
    rwa [← hlive.atMark (by decide), ← hlive.atMark (by decide)]
  | scalar header read =>
    simp only [Properties.clear_wrap, clear_append] at hc
    refine (blockScalar_followed hlive hi.floor read hc.2).wrap hp' hlive.quiet fun read' _ =>
      nodeHere_eq_ok.mpr ?_
    exact .scalar (by rwa [← hlive.at?, ← hlive.at?]) read'
  | decorated property properties read =>
    obtain ⟨hq, -, hadds, hqb⟩ := rowProperties_grown hs properties
    have hne := (hqb property).hasContent.ne_nil
    have hadds := hadds (.inl property)
    obtain ⟨-, hkept⟩ := nodeAfter_adds hrules.sound hs hdoc hp hq hne hadds properties read hf
    obtain ⟨q', t', properties', hq', htwin, -, hlt⟩ := rowProperties_followed hs hlive properties (hc.mono hkept)
    obtain ⟨ts', u', read', hf', hu, hlt'⟩ := nodeAfter_followed (m := m) hrules hs hlive hp hp' hq hq' hadds htwin
      (hlt hne) hi read hf hc hend hm
    exact ⟨ts', u', nodeHere_eq_ok.mpr (.decorated (hlive.atProperty ▸ property) properties' read'), hf', hu, hlt'⟩
  | keyed keyRead colon opens read =>
    simp only [Properties.clear_wrap, clear_append] at hc
    obtain ⟨x', v', keyRead', -, colon', -, hmapping⟩ := keyedContent_followed (m := m) (q := {}) hrules hlive hs
      (.inl hlive) (Nat.le_refl _) .none hi keyRead colon read (Properties.hasFault_of_wrap hf) hc.2 hm
    refine hmapping.wrap hp' hlive.quiet fun read' _ => nodeHere_eq_ok.mpr ?_
    exact .keyed keyRead' colon' (hmayOpen.trans opens) (hnested false ▸ read')
  | content read noKey alone =>
    simp only [Properties.clear_wrap, clear_append] at hc
    obtain ⟨-, content', v', read', hk, hfc, hv, hlt⟩ :=
      content_followed (m := m) hrules hs (.inl hlive) hi read (Properties.hasFault_of_wrap hf) hc.2 hm
    have alone' : (content'.isAlias && !p'.trees.isEmpty) = false := by rwa [Tree.isAlias, hk, hp'.isEmpty]
    exact ⟨_, v', nodeHere_eq_ok.mpr (.content read' (noKey_followed hlive hv noKey) alone'),
      hp'.wrap_quiet rfl hlive.quiet hfc, hv, hlt⟩

/-- Where a place is left as it is in the text, it is so in the piece. -/
theorem blockValue_past (hpast : Layout.Past stop s s') :
    blockValue (.ofDepth m) i' compact level p' s' = .ok (p'.bare, s') := by
  rw [blockValue, if_pos hpast.closes]
  rfl

private theorem blockValue_followed (hrules : rules.BlockFollowed cs behind stop rows)
    (hs : s.Sound cs)
    (hp : p.Sound cs) (htwin : Layout.Twin behind stop rows s s') (hp' : p.Alike p')
    (hi : Indent.Twin i i') (h : blockValue rules i compact level p s = .ok (ts, u))
    (hf : Tree.hasFaultList ts = false) (hc : Clear stop ts) (hend : Ends stop i i' u)
    (hm : s'.rest.length ≤ m) :
    Follows behind stop rows s' u (blockValue (.ofDepth m) i' compact level p' s') := by
  -- the place without a node
  have bare (h : blockValue (.ofDepth m) i' compact level p' s' = .ok (p'.bare, s')) :
      Follows behind stop rows s' s (blockValue (.ofDepth m) i' compact level p' s') :=
    ⟨p'.bare, s', h, hp'.bare_quiet, htwin, Nat.le_refl _⟩
  have live_or_bare (hlive : Layout.Live behind stop rows s s' →
      blockValue (.ofDepth m) i' compact level p' s' = .ok (p'.bare, s')) :
      Follows behind stop rows s' s (blockValue (.ofDepth m) i' compact level p' s') :=
    bare (htwin.elim hlive blockValue_past)
  have outside (hlevel : s.isLevel i = true) : s.within i = false := by
    simp only [Layout.isLevel, Bool.and_eq_true, beq_iff_eq] at hlevel
    simp [Layout.within, hlevel.1.1, ← hlevel.1.2]
  cases (blockValue_eq_ok hf).mp h with
  | closed closes =>
    refine live_or_bare fun hlive => (blockValue_eq_ok hp'.bare_quiet).mpr ?_
    cases hcloses : s'.closes i' with
    | true => exact .closed hcloses
    | false =>
      rcases hend with ⟨hlevel, hdash⟩ | hpast | ⟨rfl, -⟩
      · refine .outside hcloses ((hlive.within_eq hi).trans (outside hlevel)) ?_
        rw [← hlive.atMark (by decide), hdash closes, Bool.and_false]
      · exact absurd hpast (Nat.not_le_of_lt hlive.lt_stop)
      · rw [hlive.closes_eq, closes] at hcloses
        cases hcloses
  | node goesOn reach read =>
    obtain ⟨-, hdoc⟩ := Layout.closes_eq_false goesOn
    have hbegins := (nodeHere_adds hrules.sound hs hdoc hp read hf).2
    have hlive := htwin.live_of_lt (hbegins.lt_stop hc)
    obtain ⟨ts', u', read', hf', hu, hlt⟩ :=
      nodeHere_followed (m := m) hrules hs hdoc hlive hp hp' hi read hf hc hend hm
    exact ⟨ts', u', (blockValue_eq_ok hf').mpr
      (.node (hlive.closes_eq_false hi goesOn) ((hlive.within_eq hi).trans reach) read'), hf', hu, hlt.le⟩
  | unread goesOn reach =>
    rcases hend with ⟨hlevel, -⟩ | hpast | ⟨-, hcloses⟩
    · rw [outside hlevel] at reach
      cases reach
    · exact live_or_bare fun hlive => absurd hpast (Nat.not_le_of_lt hlive.lt_stop)
    · rw [goesOn] at hcloses
      cases hcloses
  | level goesOn houtside dash read =>
    obtain ⟨hatEnd, -⟩ := Layout.closes_eq_false goesOn
    obtain ⟨hlevel, hdash⟩ := Bool.and_eq_true_iff.mp dash
    have hfc := Properties.hasFault_of_wrap hf
    simp only [Properties.clear_wrap, clear_append] at hc
    have hj : i.level.floor = s.column + 1 := hs.opens (Bool.and_eq_true_iff.mp hlevel).2 hatEnd
    have hbegins := (sequence_adds hrules.sound hs hj hdash read hfc).2
    have hlive := htwin.live_of_lt (hbegins.lt_stop hc.2)
    have hsequence := sequence_followed (m := m) hrules hs hlive (.inl rfl) hdash read hfc hc.2 (.inl rfl) hm
    refine (hsequence.wrap hp' hlive.quiet fun read' hf' => (blockValue_eq_ok hf').mpr ?_).follows
    refine .level (hlive.closes_eq_false hi goesOn) ((hlive.within_eq hi).trans houtside) ?_ (hi.level ▸ read')
    rwa [hlive.isLevel_eq hi, ← hlive.atMark (by decide)]
  | outside goesOn houtside noDash =>
    refine live_or_bare fun hlive => (blockValue_eq_ok hp'.bare_quiet).mpr ?_
    refine .outside (hlive.closes_eq_false hi goesOn) ((hlive.within_eq hi).trans houtside) ?_
    rwa [hlive.isLevel_eq hi, ← hlive.atMark (by decide)]

/-! ### All levels -/

theorem ofDepth_blockFollowed (cs behind : List Char) (stop rows : Nat) :
    ∀ n, (Rules.ofDepth n).BlockFollowed cs behind stop rows
  | 0 => ⟨ofDepth_followed cs behind stop rows 0, nofun, nofun, nofun⟩
  | n + 1 => by
    have below := ofDepth_blockFollowed cs behind stop rows n
    have pos {m k : Nat} (h : k < m) : ∃ l, m = l + 1 ∧ k ≤ l := ⟨m - 1, by omega, by omega⟩
    refine ⟨ofDepth_followed cs behind stop rows (n + 1), ?_, ?_, ?_⟩
    · intro i i' compact level p p' s s' ts t m hs hp htwin hp' hi h hf hc hend hm
      obtain ⟨k, rfl, hk⟩ := pos hm
      exact blockValue_followed below hs hp htwin hp' hi h hf hc hend hk
    · intro j j' s s' ts t m hs htwin hj h hf hc hend hm
      obtain ⟨k, rfl, hk⟩ := pos hm
      exact blockItems_followed below hs htwin hj h hf hc hend hk
    · intro j j' s s' ts t m hs htwin hj h hf hc hend hm
      obtain ⟨k, rfl, hk⟩ := pos hm
      exact blockPairs_followed below hs htwin hj h hf hc hend hk

end YamlOutline.Syntax
