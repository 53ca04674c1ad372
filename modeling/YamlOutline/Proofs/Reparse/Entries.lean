import YamlOutline.Proofs.Reparse.Flow
import YamlOutline.Proofs.Syntax.StreamRules

/-! The entries of collections in brackets, read twice. -/

namespace YamlOutline.Syntax
open Text (size)
variable {cs behind : List Char} {stop rows n m : Nat} {s s' t u : Layout} {i i' : Indent}
  {rules : Rules} {ts us : List Tree} {content : Tree}

/-! ### Properties -/

/-- Properties of the same kinds, those of the other reading without a fault. -/
structure Properties.Alike (p p' : Properties) : Prop where
  isEmpty : p'.trees.isEmpty = p.trees.isEmpty
  anchor : p'.anchor = p.anchor
  tag : p'.tag = p.tag
  quietBefore : Tree.hasFaultList p'.before = false
  quiet : Tree.hasFaultList p'.trees = false

namespace Properties
variable {p p' q : Properties} {k : Kind} {comments : List Tree}

theorem Alike.none : Alike {} {} :=
  ⟨rfl, rfl, rfl, rfl, rfl⟩

@[simp] theorem clear_wrap : Clear stop (p.wrap k comments content) ↔
    Clear stop (p.before ++ p.trees ++ comments ++ [content]) := by
  rw [Clear, Clear, leavesList_wrap]

@[simp] theorem clear_bare : Clear stop p.bare ↔ Clear stop (p.before ++ p.trees) := by
  rw [Clear, Clear, leavesList_bare]

theorem Alike.wrap_quiet (h : p.Alike p') (hk : Tree.isFault (.node k []) = false)
    (hcomments : Tree.hasFaultList comments = false) (hc : content.hasFault = false) :
    Tree.hasFaultList (p'.wrap k comments content) = false := by
  unfold wrap
  split <;> simp [h.quietBefore, h.quiet, hcomments, hc, hk]

theorem Alike.bare_quiet (h : p.Alike p') : Tree.hasFaultList p'.bare = false := by
  unfold bare
  split <;> simp [h.quietBefore, h.quiet, Tree.isFault, Tree.kind]

private theorem property_followed (hlive : Layout.Live behind stop rows s s')
    (h : s.property = .ok (ts, t))
    (hc : Clear stop ts) :
    ∃ k n, ts = s.comments ++ [.leaf k (s.cursor.spanOf n)] ∧
      s'.property = .ok (s'.comments ++ [.leaf k (s'.cursor.spanOf n)], .after (s'.cursor.drop n)) ∧
      Tree.hasFaultList (s'.comments ++ [.leaf k (s'.cursor.spanOf n)]) = false ∧
      Layout.Twin behind stop rows t (.after (s'.cursor.drop n)) ∧
      (Layout.after (s'.cursor.drop n)).rest.length < s'.rest.length := by
  have hr : s.rest ≠ [] := by simp [hlive.rest, hlive.more]
  have conclude {k : Kind} {n : Nat} (hk : k = .anchor ∨ k = .tag) (hn : n ≠ 0)
      (hread : (s.cursor.drop n).offset ≤ stop) :
      Tree.hasFaultList (s'.comments ++ [.leaf k (s'.cursor.spanOf n)]) = false ∧
        Layout.Twin behind stop rows (.after (s.cursor.drop n)) (.after (s'.cursor.drop n)) ∧
        (Layout.after (s'.cursor.drop n)).rest.length < s'.rest.length :=
    ⟨by rcases hk with rfl | rfl <;> simp [hlive.quiet, Tree.isFault, Tree.kind], hlive.read hread,
      Layout.length_rest_after_lt hlive.more hn⟩
  unfold Layout.property Layout.token? at h ⊢
  rw [← hlive.at?]
  split at h
  · rw [if_pos ‹_›]
    split at h <;> cases h
    rename_i n hn
    have hread := (clear_append.mp hc).2.leaf hr (nameLength?_ne_zero hn) (by simp)
    rw [hlive.length nameLength?_append hn hread]
    exact ⟨.anchor, n, rfl, rfl, conclude (.inl rfl) (nameLength?_ne_zero hn) hread⟩
  · rw [if_neg ‹_›]
    split at h <;> cases h
    rename_i n hn
    have hread := (clear_append.mp hc).2.leaf hr (tagLength?_ne_zero hn) (by simp)
    rw [hlive.length tagLength?_append hn hread]
    exact ⟨.tag, n, rfl, rfl, conclude (.inr rfl) (tagLength?_ne_zero hn) hread⟩

private theorem read_followed (hlive : Layout.Live behind stop rows s s') (hp : p.Alike p')
    (h : p.read s = .ok (q, t)) (hc : Clear stop (q.before ++ q.trees)) :
    ∃ q' t', p'.read s' = .ok (q', t') ∧ q.Alike q' ∧ Layout.Twin behind stop rows t t' ∧
      t'.rest.length < s'.rest.length := by
  obtain ⟨htwice, ts, hprop, rfl⟩ := read_eq_ok.mp h
  rw [hlive.at?, ← hp.anchor, ← hp.tag] at htwice
  have hts : Clear stop ts := by
    obtain ⟨k, n, -, -, htok⟩ := Layout.property_eq_ok hprop
    obtain ⟨rfl, rfl⟩ := Prod.mk.inj htok
    by_cases hfirst : p.trees.isEmpty = true
    · simp only [hfirst, if_true, List.drop_left, clear_append] at hc
      exact clear_append.mpr ⟨hc.1.2, hc.2⟩
    · simp only [hfirst, Bool.false_eq_true, if_false, clear_append] at hc
      exact clear_append.mpr hc.2.2
  obtain ⟨k, n, rfl, hprop', hquiet, htwin, hlen⟩ := property_followed hlive hprop hts
  refine ⟨_, _, read_eq_ok.mpr ⟨htwice, _, hprop', rfl⟩, ?_, htwin, hlen⟩
  rw [Tree.hasFaultList_append, Bool.or_eq_false_iff] at hquiet
  by_cases hfirst : p.trees.isEmpty = true
  · have hfirst' : p'.trees.isEmpty = true := hp.isEmpty.trans hfirst
    simp only [hfirst, hfirst', if_true, List.drop_left]
    exact ⟨rfl, by simp [hp.anchor, hlive.at?], by simp [hp.tag, hlive.at?],
      by simp [hp.quietBefore, hlive.quiet], hquiet.2⟩
  · have hfirst' : ¬p'.trees.isEmpty = true := by rwa [hp.isEmpty]
    simp only [hfirst, hfirst', Bool.false_eq_true, if_false]
    exact ⟨by rw [Bool.eq_iff_iff]; simp, by simp [hp.anchor, hlive.at?],
      by simp [hp.tag, hlive.at?], hp.quietBefore, by simp [hp.quiet, hquiet]⟩

end Properties

/-! ### Nodes -/

/-- A node inside brackets is within reach of its collection. -/
theorem within_of_flowNode {endsItself : Bool} (h : flowNode rules i s = .ok (ts, endsItself, u)) :
    s.within i = true := by
  by_contra hw
  have hunfit : (s.atProperty && s.within i) = false := by rw [eq_false_of_ne_true hw, Bool.and_false]
  cases flowNode_eq_ok.mp h with
  | bare properties some =>
    obtain ⟨rfl, -⟩ := flowProperties_none hunfit properties
    cases some
  | wrapped properties reach =>
    obtain ⟨-, rfl⟩ := flowProperties_none hunfit properties
    exact hw reach

private theorem Properties.clear_of_read {p q : Properties} (h : p.read s = .ok (q, t))
    (hc : Clear stop (q.before ++ q.trees)) : Clear stop (p.before ++ p.trees) := by
  obtain ⟨-, ts, -, rfl⟩ := Properties.read_eq_ok.mp h
  by_cases hfirst : p.trees.isEmpty = true
  · simp only [hfirst, if_true, clear_append] at hc
    rw [List.isEmpty_iff.mp hfirst, List.append_nil]
    exact hc.1.1
  · simp only [hfirst, Bool.false_eq_true, if_false, clear_append] at hc
    exact clear_append.mpr ⟨hc.1, hc.2.1⟩

theorem Layout.Twin.live_of_lt (h : Layout.Twin behind stop rows s s')
    (hlt : s.cursor.offset < stop) : Layout.Live behind stop rows s s' :=
  h.resolve_right fun hpast => Nat.not_le_of_lt hlt hpast.past

theorem Begins.lt_stop (h : Begins s ts) (hc : Clear stop ts) : s.cursor.offset < stop := by
  obtain ⟨l, hl, htoken, hstart⟩ := h
  have hle := hc l hl
  rw [if_pos htoken] at hle
  have hlt := lt_of_isToken htoken
  omega

private theorem Layout.Past.atProperty (h : Layout.Past stop s s') : s'.atProperty = false := by
  simp [Layout.atProperty, Layout.at?, h.done]

/-- A group goes on in the piece as in the text, where the guards for its second property agree. -/
theorem Properties.Group.followed {p : Properties} {goesOn : Layout → Bool} (goesOn' : Layout → Bool)
    (hs : s.Sound cs) (hlive : Layout.Live behind stop rows s s') (hat : s.atProperty = true) (h : Group goesOn s p t)
    (hfit : ∀ {t t'}, Layout.Live behind stop rows t t' → goesOn t = true → goesOn' t' = true)
    (hunfit : ∀ {t'}, Layout.Live behind stop rows t t' → t.atProperty = true → goesOn t = false →
      goesOn' t' = false)
    (hc : Clear stop (p.before ++ p.trees)) :
    ∃ p' t', Group goesOn' s' p' t' ∧ p.Alike p' ∧ Layout.Twin behind stop rows t t' ∧
      t'.rest.length < s'.rest.length := by
  cases h with
  | one read ends =>
    obtain ⟨p', t', hread', hp', htwin, hlt⟩ := read_followed hlive .none read hc
    refine ⟨p', t', .one hread' ?_, hp', htwin, hlt⟩
    rcases htwin with ht | ht
    · rw [← ht.atProperty]
      cases hat' : t.atProperty with
      | false => rfl
      | true => exact hunfit ht hat' (by simpa [hat'] using ends)
    · rw [ht.atProperty, Bool.false_and]
  | two first more second =>
    obtain ⟨hat', hfit'⟩ := Bool.and_eq_true_iff.mp more
    have hgrown := read_grown hs none_sound hat first
    have hsecond := read_grown hgrown.adds.sound hgrown.sound hat' second
    obtain ⟨p', t', hread', hp', htwin, hlt⟩ := read_followed hlive .none first (clear_of_read second hc)
    have ht := htwin.live_of_lt (hsecond.begins.lt_stop (clear_append.mp hc).2)
    obtain ⟨p'', t'', hread'', hp'', htwin', hlt'⟩ := read_followed ht hp' second hc
    refine ⟨p'', t'', .two hread' ?_ hread'', hp'', htwin', hlt'.trans hlt⟩
    rw [← ht.atProperty, hat', hfit ht hfit', Bool.true_and]

private theorem flowProperties_followed {p : Properties} (hs : s.Sound cs)
    (hlive : Layout.Live behind stop rows s s') (hi : i'.floor ≤ i.floor)
    (h : flowNode.properties i s = .ok (p, t)) (hc : Clear stop (p.before ++ p.trees))
    (hstop : t.cursor.offset < stop) (hreach : t.atProperty = true → t.within i = true)
    (hwithin : s.within i = true) :
    ∃ p' t', flowNode.properties i' s' = .ok (p', t') ∧ p.Alike p' ∧
      Layout.Live behind stop rows t t' ∧ t'.rest.length ≤ s'.rest.length ∧
      (p.trees.isEmpty = false → t'.rest.length < s'.rest.length) := by
  have hfit : (s'.atProperty && s'.within i') = (s.atProperty && s.within i) := by
    rw [← hlive.atProperty, hlive.within hi hwithin, hwithin]
  cases flowProperties_eq_ok.mp h with
  | none unfit =>
    exact ⟨{}, s', flowProperties_eq_ok.mpr (.none (hfit.trans unfit)), .none, hlive, Nat.le_refl _, nofun⟩
  | some fit read =>
    obtain ⟨p', t', hread, hp', htwin, hlt⟩ := read.followed (Layout.within · i') hs hlive
      (Bool.and_eq_true_iff.mp fit).1 (fun ht hw => ht.within hi hw)
      (fun _ hat hw => by rw [hreach hat] at hw; cases hw) hc
    exact ⟨p', t', flowProperties_eq_ok.mpr (.some (hfit.trans fit) hread), hp', htwin.live_of_lt hstop, hlt.le,
      fun _ => hlt⟩

/-- Reading goes on in the piece: at `u`, before its end, in reach of the collection or at a bracket. -/
structure GoesOn (stop : Nat) (i : Indent) (u : Layout) : Prop where
  before : u.cursor.offset < stop
  reach : u.within i = true ∨ u.atClosing = true

private theorem flowNode_followed (hrules : rules.Followed cs behind stop rows) {endsItself : Bool}
    (hs : s.Sound cs) (hlive : Layout.Live behind stop rows s s') (hi : i'.floor ≤ i.floor)
    (h : flowNode rules i s = .ok (ts, endsItself, u)) (hf : Tree.hasFaultList ts = false)
    (hc : Clear stop ts) (hu : GoesOn stop i u) (hm : s'.rest.length ≤ m) :
    ∃ ts' u', flowNode (.ofDepth m) i' s' = .ok (ts', endsItself, u') ∧
      Tree.hasFaultList ts' = false ∧ Layout.Live behind stop rows u u' ∧
      u'.rest.length < s'.rest.length := by
  have hwithin := within_of_flowNode h
  have follow {p : Properties} {t : Layout} (hprops : flowNode.properties i s = .ok (p, t))
      (hc : Clear stop (p.before ++ p.trees)) (ht : t.cursor.offset < stop)
      (hreach : t.atProperty = true → t.within i = true) :=
    flowProperties_followed hs hlive hi hprops hc ht hreach hwithin
  cases flowNode_eq_ok.mp h with
  | bare properties some ends =>
    have hnone := Layout.atProperty_eq_false ends
    obtain ⟨p', t', hprops', hp', ht, -, hlt⟩ := follow properties (by simpa using hc) hu.before (by simp [hnone])
    rw [ht.atSeparator, ht.atFlowColon] at ends
    exact ⟨p'.bare, t', flowNode_eq_ok.mpr (.bare hprops' (hp'.isEmpty.trans some) ends), hp'.bare_quiet, ht, hlt some⟩
  | @wrapped p t _ content properties reach read alone =>
    obtain ⟨-, hadds, -⟩ := flowNode_properties_grown hs properties
    have hfc := Properties.hasFault_of_wrap hf
    have hct := flowContent_adds hrules.sound hadds.sound read hfc
    simp only [Properties.clear_wrap, clear_append] at hc
    obtain ⟨p', t', hprops', hp', ht, hle, -⟩ := follow properties (clear_append.mpr hc.1.1)
      (Nat.lt_of_le_of_lt hct.1.onward hu.before) fun _ => reach
    obtain ⟨content', u', hcontent', hkind, hfc', hu', hlt⟩ := flowContent_followed (m := m) hrules
      hadds.sound ht (.inr ⟨hi, hu.reach.imp_right fun h => ⟨rfl, h⟩⟩) read hfc hc.2 (by omega)
    have halias : content'.isAlias = content.isAlias := by rw [Tree.isAlias, Tree.isAlias, hkind]
    have hends : content'.endsItself = content.endsItself := by rw [Tree.endsItself, Tree.endsItself, hkind]
    refine ⟨p'.wrap .flowNode t'.comments content', u', ?_, hp'.wrap_quiet rfl ht.quiet hfc',
      hu'.live_of_lt hu.before, by omega⟩
    rw [← hends]
    exact flowNode_eq_ok.mpr (.wrapped hprops' (ht.within hi reach) hcontent' (by rw [halias, hp'.isEmpty, alone]))

/-! ### Entries -/

private theorem flowValue_followed (hrules : rules.Followed cs behind stop rows) {isMapping : Bool}
    (hs : s.Sound cs) (hlive : Layout.Live behind stop rows s s') (hi : i'.floor ≤ i.floor)
    (h : flowValue rules isMapping i s = .ok (ts, u)) (hf : Tree.hasFaultList ts = false)
    (hc : Clear stop ts) (hu : GoesOn stop i u) (hm : s'.rest.length ≤ m) :
    ∃ ts' u', flowValue (.ofDepth m) isMapping i' s' = .ok (ts', u') ∧
      Tree.hasFaultList ts' = false ∧ Layout.Live behind stop rows u u' ∧
      u'.rest.length < s'.rest.length := by
  have colon (hc : Clear stop (s.token .valueMark 1).1) :=
    hlive.token hc Nat.one_ne_zero (by simp) rfl
  have hcolon := Layout.colon_adds hs
  cases (flowValue_eq_ok hf).mp h with
  | none ends =>
    obtain ⟨htwin, hf', hlt⟩ := colon hc
    have ht := htwin.live_of_lt hu.before
    exact ⟨_, _, (flowValue_eq_ok hf').mpr (.none (ht.atSeparator ▸ ends)), hf', ht, hlt⟩
  | node read =>
    rw [Tree.hasFaultList_append, Bool.or_eq_false_iff] at hf
    rw [clear_append] at hc
    obtain ⟨hvalue, -⟩ := flowNode_adds hrules.sound hcolon.sound read hf.2
    obtain ⟨htwin, hf', hlt⟩ := colon hc.1
    have ht := htwin.live_of_lt (Nat.lt_of_le_of_lt hvalue.onward hu.before)
    obtain ⟨ts', u', hnode', hquiet, hlive', hlt'⟩ := flowNode_followed (m := m) hrules hcolon.sound ht hi
      read hf.2 hc.2 hu (by omega)
    have hf'' : Tree.hasFaultList ((s'.token .valueMark 1).1 ++ ts') = false := by
      rw [Tree.hasFaultList_append, hf', hquiet, Bool.or_false]
    exact ⟨_, u', (flowValue_eq_ok hf'').mpr (.node hnode'), hf'', hlive', by omega⟩

private theorem within_of_flowEntry {isMapping anyRow mustPair isPair : Bool}
    (h : flowEntry rules isMapping anyRow mustPair i s = .ok (ts, isPair, u)) : s.within i = true := by
  cases flowEntry_eq_ok.mp h with
  | keyless colon =>
    simp only [Bool.and_eq_true] at colon
    exact colon.1.2
  | pair node => exact within_of_flowNode node
  | node read => exact within_of_flowNode read

/-- A separator is no colon. -/
private theorem Layout.not_colon_of_atSeparator (h : s.atSeparator = true) :
    s.at? ':' = false ∧ s.atFlowColon = false := by
  have hnone : s.at? ':' = false := by
    simp only [Layout.atSeparator, Layout.atClosing, Bool.or_eq_true] at h
    rcases h with h | h | h <;> exact Layout.at?_unique h (by decide)
  refine ⟨hnone, ?_⟩
  by_contra hcolon
  rw [Layout.at?_of_atFlowColon (eq_true_of_ne_false hcolon)] at hnone
  cases hnone

private theorem flowEntry_followed (hrules : rules.Followed cs behind stop rows)
    {isMapping anyRow mustPair isPair : Bool} (hs : s.Sound cs)
    (hlive : Layout.Live behind stop rows s s') (hi : i'.floor ≤ i.floor)
    (h : flowEntry rules isMapping anyRow mustPair i s = .ok (ts, isPair, u))
    (hf : Tree.hasFaultList ts = false) (hc : Clear stop ts) (hu : GoesOn stop i u)
    (hsep : u.atSeparator = true) (hm : s'.rest.length ≤ m) :
    ∃ ts' u', flowEntry (.ofDepth m) isMapping anyRow mustPair i' s' = .ok (ts', isPair, u') ∧
      Tree.hasFaultList ts' = false ∧ Layout.Live behind stop rows u u' ∧
      u'.rest.length < s'.rest.length := by
  have hwithin := within_of_flowEntry h
  cases flowEntry_eq_ok.mp h with
  | keyless colon read =>
    obtain ⟨ts', u', hvalue', hf', hlive', hlt⟩ := flowValue_followed hrules hs hlive hi read hf hc hu hm
    have hwithin' : s'.within i' = s.within i := (hlive.within hi hwithin).trans hwithin.symm
    have colon' : (s'.atFlowColon && s'.within i' && !mustPair) = true := by
      rwa [← hlive.atFlowColon, hwithin']
    exact ⟨ts', u', flowEntry_eq_ok.mpr (.keyless colon' hvalue'), hf', hlive', hlt⟩
  | @pair key value endsItself t _ node colon reach read =>
    rw [Tree.hasFaultList_append, Bool.or_eq_false_iff] at hf
    rw [clear_append] at hc
    have ht : t.within i = true := by
      cases anyRow
      · simp [Layout.within, by simpa using reach]
      · exact reach
    have hr : t.rest ≠ [] := by
      cases endsItself
      · exact Layout.rest_ne_nil_of_atFlowColon colon
      · exact Layout.rest_ne_nil_of_at? colon
    obtain ⟨hk, -⟩ := flowNode_adds hrules.sound hs node hf.1
    obtain ⟨hv, -⟩ := flowValue_adds hrules.sound hk.sound hr read hf.2
    obtain ⟨key', t', hkey', hfk, hlive', hlt⟩ := flowNode_followed hrules hs hlive hi node hf.1 hc.1
      ⟨Nat.lt_of_le_of_lt hv.onward hu.before, .inl ht⟩ hm
    obtain ⟨value', u', hvalue', hfv, hlive'', hlt'⟩ := flowValue_followed (m := m) hrules hk.sound hlive'
      hi read hf.2 hc.2 hu (by omega)
    have hreach' : (if anyRow then t'.within i' else !t'.fresh) = true := by
      cases anyRow
      · exact hlive'.fresh ▸ reach
      · exact hlive'.within hi reach
    rw [hlive'.at?, hlive'.atFlowColon] at colon
    refine ⟨key' ++ value', u', flowEntry_eq_ok.mpr (.pair hkey' colon hreach' hvalue'), ?_, hlive'', by omega⟩
    rw [Tree.hasFaultList_append, hfk, hfv, Bool.or_false]
  | node read _ mayStand =>
    obtain ⟨ts', u', hkey', hfk, hlive', hlt⟩ := flowNode_followed hrules hs hlive hi read hf hc hu hm
    obtain ⟨hcolon, hflow⟩ := Layout.not_colon_of_atSeparator (hlive'.atSeparator ▸ hsep)
    exact ⟨ts', u', flowEntry_eq_ok.mpr (.node hkey' (by simp [hcolon, hflow]) mayStand), hfk, hlive', hlt⟩

private theorem within_of_flowItem {isMapping : Bool}
    (h : flowItem rules isMapping i s = .ok (ts, u)) :
    s.within i = true := by
  obtain ⟨us, -, hitem⟩ := flowItem_eq_ok.mp h
  cases hitem with
  | mark question | marked question => exact (Bool.and_eq_true_iff.mp question).2
  | entry _ read => exact within_of_flowEntry (s := s.settle) read

private theorem flowItem_followed (hrules : rules.Followed cs behind stop rows) {isMapping : Bool}
    (hs : s.Sound cs) (hlive : Layout.Live behind stop rows s s') (hi : i'.floor ≤ i.floor)
    (h : flowItem rules isMapping i s = .ok (ts, u)) (hf : Tree.hasFaultList ts = false)
    (hc : Clear stop ts) (hu : GoesOn stop i u) (hsep : u.atSeparator = true)
    (hm : s'.rest.length ≤ m) :
    ∃ ts' u', flowItem (.ofDepth m) isMapping i' s' = .ok (ts', u') ∧
      Tree.hasFaultList ts' = false ∧ Layout.Live behind stop rows u u' ∧
      u'.rest.length < s'.rest.length := by
  have hwithin : s.settle.within i = true := within_of_flowItem (s := s) h
  have hlive' := hlive.settle
  have hquestion : (s'.settle.atMark '?' && s'.settle.within i') = (s.settle.atMark '?' && s.settle.within i) := by
    rw [hlive'.atMark (by decide), hlive'.within hi hwithin, hwithin]
  have mark (hc : Clear stop (s.settle.token .mark 1).1) := hlive'.token hc Nat.one_ne_zero (by simp) rfl
  have hmark := Layout.mark_adds hs.settle 1
  obtain ⟨us, rfl, hitem⟩ := flowItem_eq_ok.mp h
  rw [Tree.hasFaultList_append, Bool.or_eq_false_iff] at hf
  cases hitem with
  | mark question ends =>
    simp only [clear_append, clear_node, clear_nil, and_true] at hc
    obtain ⟨htwin, hf', hlt⟩ := mark hc.2
    have ht := htwin.live_of_lt hu.before
    exact ⟨_, _, flowItem_eq_ok.mpr ⟨_, rfl, .mark (hquestion.trans question) (ht.atSeparator ▸ ends)⟩,
      by simp [hlive.quiet, hf', Tree.isFault, Tree.kind], ht, hlt⟩
  | marked question read =>
    simp only [clear_append, clear_node, clear_nil, and_true] at hc
    simp only [Tree.hasFaultList_cons, Tree.hasFault_node, Tree.hasFaultList_append, Bool.or_eq_false_iff] at hf
    obtain ⟨hp, -⟩ := flowEntry_adds hrules.sound hmark.sound read hf.2.1.2.2
    obtain ⟨htwin, hf', hlt⟩ := mark hc.2.1
    have ht := htwin.live_of_lt (Nat.lt_of_le_of_lt hp.onward hu.before)
    have hlt : (s'.settle.token .mark 1).2.rest.length < s'.rest.length := hlt
    obtain ⟨pair', u', hpair', hfp, hu', hlt'⟩ := flowEntry_followed (m := m) hrules hmark.sound ht hi
      read hf.2.1.2.2 hc.2.2 hu hsep (by omega)
    exact ⟨_, u', flowItem_eq_ok.mpr ⟨_, rfl, .marked (hquestion.trans question) hpair'⟩,
      by simp [hlive.quiet, hf', hfp, Tree.isFault, Tree.kind], hu', hlt'.trans hlt⟩
  | @entry parts isPair _ noQuestion read =>
    rw [clear_append] at hc
    have hparts : Tree.hasFaultList parts = false ∧ Clear stop parts := by
      cases isPair
      · exact ⟨hf.2, hc.2⟩
      · exact ⟨by simpa [Tree.isFault, Tree.kind] using hf.2, by simpa using hc.2⟩
    obtain ⟨parts', u', hentry', hf', hu', hlt⟩ := flowEntry_followed (m := m) hrules hs.settle hlive' hi
      read hparts.1 hparts.2 hu hsep hm
    refine ⟨_, u', flowItem_eq_ok.mpr ⟨_, rfl, .entry (hquestion.trans noQuestion) hentry'⟩, ?_, hu', hlt⟩
    cases isPair <;> simp [hlive.quiet, hf', Tree.isFault, Tree.kind]

/-! ### Whole collections -/

/-- A closing bracket in the column of the collection around it is in reach where less indentation
is asked for. -/
private theorem flowClosing_followed {isMapping : Bool} (hlive : Layout.Live behind stop rows s s')
    (hi : i'.floor ≤ i.floor) (h : flowClosing isMapping i s = some (ts, t)) :
    flowClosing isMapping i' s' = some (s'.token .mark 1) := by
  obtain ⟨hat, hreach, -⟩ := flowClosing_eq_some.mp h
  refine flowClosing_eq_some.mpr ⟨hlive.at? _ ▸ hat, ?_, rfl⟩
  rw [Bool.or_eq_true] at hreach ⊢
  rcases hreach with hw | hl
  · exact .inl (hlive.within hi hw)
  · rcases hi.eq_or_lt with he | hlt
    · right
      simpa [Layout.isLevel, he, hlive.fresh, hlive.leading, hlive.tabbed] using hl
    · left
      simp only [Layout.isLevel, Bool.and_eq_true, beq_iff_eq] at hl
      simp only [Layout.within, ← hlive.leading, Bool.or_eq_true, decide_eq_true_eq]
      omega

private theorem closing_goesOn {isMapping : Bool} (h : flowClosing isMapping i s = some (ts, t))
    (hc : Clear stop ts) : GoesOn stop i s ∧ s.atSeparator = true := by
  obtain ⟨hat, -, h⟩ := flowClosing_eq_some.mp h
  cases h
  have hclosing : s.atClosing = true := by
    cases isMapping <;> simp [Layout.atClosing, by simpa using hat]
  have hr := Layout.rest_ne_nil_of_at? hat
  have hread := (clear_append.mp hc).2.leaf hr Nat.one_ne_zero (by simp)
  exact ⟨⟨Nat.lt_of_lt_of_le (Cursor.offset_lt_drop hr Nat.one_ne_zero) hread, .inr hclosing⟩,
    by simp [Layout.atSeparator, hclosing]⟩

private theorem comma_goesOn (hcomma : (t.at? ',' && t.within i) = true)
    (hc : Clear stop (t.token .mark 1).1) :
    GoesOn stop i t ∧ t.atSeparator = true := by
  obtain ⟨hat, hwithin⟩ := Bool.and_eq_true_iff.mp hcomma
  have hr := Layout.rest_ne_nil_of_at? hat
  have hread := (clear_append.mp hc).2.leaf hr Nat.one_ne_zero (by simp)
  exact ⟨⟨Nat.lt_of_lt_of_le (Cursor.offset_lt_drop hr Nat.one_ne_zero) hread, .inl hwithin⟩,
    by simp [Layout.atSeparator, hat]⟩

/-- The entries begin in the piece, since the bracket behind them is in it. -/
private theorem flowEntries_before (hrules : rules.Sound cs) {isMapping : Bool} (hs : s.Sound cs)
    (h : flowEntries rules isMapping i s = .ok (ts, u)) (hf : Tree.hasFaultList ts = false)
    (hc : Clear stop ts) : s.cursor.offset < stop := by
  cases (flowEntries_eq_ok hf).mp h with
  | closed closing => exact (closing_goesOn closing hc).1.before
  | comma _ read comma =>
    simp only [Tree.hasFaultList_append, Bool.or_eq_false_iff] at hf
    have ht := (comma_goesOn comma (clear_append.mp (clear_append.mp hc).1).2).1
    exact Nat.lt_of_le_of_lt (flowItem_adds hrules hs read hf.1.1).onward ht.before
  | last _ read closing =>
    rw [Tree.hasFaultList_append, Bool.or_eq_false_iff] at hf
    have ht := (closing_goesOn closing (clear_append.mp hc).2).1
    exact Nat.lt_of_le_of_lt (flowItem_adds hrules hs read hf.1).onward ht.before

private theorem flowEntries_followed (hrules : rules.Followed cs behind stop rows)
    {isMapping : Bool}
    (hs : s.Sound cs) (hlive : Layout.Live behind stop rows s s') (hi : i'.floor ≤ i.floor)
    (h : flowEntries rules isMapping i s = .ok (ts, u)) (hf : Tree.hasFaultList ts = false)
    (hc : Clear stop ts) (hm : s'.rest.length ≤ m) :
    Follows behind stop rows s' u (flowEntries (.ofDepth m) isMapping i' s') := by
  -- the closing bracket in both readings
  have close {s s' : Layout} {ts : List Tree} (hlive : Layout.Live behind stop rows s s')
      (h : flowClosing isMapping i s = some (ts, u)) (hc : Clear stop ts) :
      Layout.Twin behind stop rows u (s'.token .mark 1).2 ∧
        Tree.hasFaultList (s'.token .mark 1).1 = false ∧
        (s'.token .mark 1).2.rest.length < s'.rest.length := by
    obtain ⟨-, -, h⟩ := flowClosing_eq_some.mp h
    cases h
    exact hlive.token hc Nat.one_ne_zero (by simp) rfl
  -- no bracket closes the collection where an item is read
  have opened {item : List Tree} {t : Layout} (hitem : flowItem rules isMapping i s = .ok (item, t))
      (hnone : flowClosing isMapping i s = none) : flowClosing isMapping i' s' = none := by
    have hwithin := within_of_flowItem hitem
    rw [flowClosing, hwithin, Bool.true_or, Bool.and_true, ite_eq_right_iff] at hnone
    rw [flowClosing, ← hlive.at?, if_neg]
    intro hat
    cases hnone (Bool.and_eq_true_iff.mp hat).1
  cases (flowEntries_eq_ok hf).mp h with
  | closed closing =>
    obtain ⟨htwin, hquiet, hlt⟩ := close hlive closing hc
    exact ⟨_, _, (flowEntries_eq_ok hquiet).mpr (.closed (flowClosing_followed hlive hi closing)), hquiet, htwin,
      hlt.le⟩
  | comma isOpen read comma more =>
    simp only [Tree.hasFaultList_append, Bool.or_eq_false_iff] at hf
    simp only [clear_append] at hc
    obtain ⟨ht, hsep⟩ := comma_goesOn comma hc.1.2
    obtain ⟨item', t', hitem', hfi', hlive', hlt⟩ := flowItem_followed hrules hs hlive hi read hf.1.1 hc.1.1 ht hsep hm
    have hmark := Layout.mark_adds (flowItem_adds hrules.sound hs read hf.1.1).sound 1
    obtain ⟨htwin, hquiet, hlt'⟩ := hlive'.token hc.1.2 Nat.one_ne_zero (by simp) rfl
    obtain ⟨rest', u', hrest', hfr', hu, hle⟩ := hrules.entries (m := m) hmark.sound htwin hi more hf.2
      hc.2 (by omega)
    obtain ⟨hat, hwithin⟩ := Bool.and_eq_true_iff.mp comma
    have comma' : (t'.at? ',' && t'.within i') = true := by
      rw [← hlive'.at?, hat, hlive'.within hi hwithin]
      rfl
    have hf' : Tree.hasFaultList (item' ++ (t'.token .mark 1).1 ++ rest') = false := by simp [hfi', hquiet, hfr']
    exact ⟨_, u', (flowEntries_eq_ok hf').mpr (.comma (opened read isOpen) hitem' comma' hrest'), hf', hu, by omega⟩
  | last isOpen read closing =>
    simp only [Tree.hasFaultList_append, Bool.or_eq_false_iff] at hf
    rw [clear_append] at hc
    obtain ⟨ht, hsep⟩ := closing_goesOn closing hc.2
    obtain ⟨item', t', hitem', hfi', hlive', hlt⟩ := flowItem_followed hrules hs hlive hi read hf.1 hc.1 ht hsep hm
    obtain ⟨htwin, hquiet, hlt'⟩ := close hlive' closing hc.2
    have hf' : Tree.hasFaultList (item' ++ (t'.token .mark 1).1) = false := by simp [hfi', hquiet]
    have closing' := flowClosing_followed hlive' hi closing
    exact ⟨_, _, (flowEntries_eq_ok hf').mpr (.last (opened read isOpen) hitem' closing'), hf', htwin,
      (hlt'.trans hlt).le⟩

theorem ofDepth_followed (cs behind : List Char) (stop rows : Nat) :
    ∀ n, (Rules.ofDepth n).Followed cs behind stop rows
  | 0 => ⟨ofDepth_sound cs 0, nofun⟩
  | n + 1 => by
    have below := ofDepth_followed cs behind stop rows n
    refine ⟨ofDepth_sound cs (n + 1), ?_⟩
    intro isMapping i i' s s' ts t m hs htwin hi h hf hc hm
    have hlive := htwin.live_of_lt (flowEntries_before below.sound hs h hf hc)
    have hpos := List.length_pos_of_ne_nil hlive.more
    obtain ⟨k, rfl⟩ : ∃ k, m = k + 1 := ⟨m - 1, by
      change 0 < s'.rest.length at hpos
      omega⟩
    exact flowEntries_followed below hs hlive hi h hf hc (Nat.le_of_lt_succ hm)

end YamlOutline.Syntax
