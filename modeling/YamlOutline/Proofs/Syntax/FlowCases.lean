import YamlOutline.Proofs.Syntax.Properties

/-! What the rules of properties and of nodes in flow style have read where they succeed. Each of them goes
one of a few ways, and what holds on a way is enough to go it. -/

namespace YamlOutline.Syntax
variable {s t u : Layout} {i : Indent} {rules : Rules} {content : Tree} {ts : List Tree} {p q : Properties}
  {inFlow isMapping endsItself : Bool}

namespace Layout

theorem at?_eq {c : Char} (h : s.at? c = true) (d : Char) : s.at? d = (c == d) := by
  rw [at?, eq_of_beq h, Option.some_beq_some]

theorem at?_unique {c d : Char} (h : s.at? c = true) (hd : c ≠ d) : s.at? d = false := by
  rw [at?_eq h, beq_eq_false_iff_ne.mpr hd]

theorem at?_of_atFlowColon (h : s.atFlowColon = true) : s.at? ':' = true := by
  unfold atFlowColon at h
  split at h
  · rename_i r hr
    simp [at?, hr]
  · cases h

theorem atProperty_eq_false (h : (s.atSeparator || s.atFlowColon) = true) : s.atProperty = false := by
  have hat : ∃ c, s.at? c = true ∧ c ≠ '&' ∧ c ≠ '!' := by
    simp only [atSeparator, atClosing, Bool.or_eq_true] at h
    rcases h with (h | h | h) | h
    · exact ⟨_, h, by decide⟩
    · exact ⟨_, h, by decide⟩
    · exact ⟨_, h, by decide⟩
    · exact ⟨_, at?_of_atFlowColon h, by decide⟩
  obtain ⟨c, hc, hand, hbang⟩ := hat
  rw [atProperty, at?_unique hc hand, at?_unique hc hbang, Bool.or_false]

private theorem atSeparator_eq_false {c : Char} (h : s.at? c = true)
    (hc : c ≠ ',' ∧ c ≠ ']' ∧ c ≠ '\x7d') :
    s.atSeparator = false := by
  rw [atSeparator, atClosing, at?_unique h hc.1, at?_unique h hc.2.1, at?_unique h hc.2.2]
  rfl

end Layout

/-! ### Properties -/

namespace Properties
variable {goesOn : Layout → Bool}

/-- One property, and a second one where the group goes on. -/
inductive Group (goesOn : Layout → Bool) (s : Layout) : Properties → Layout → Prop where
  | one {p : Properties} {t : Layout} (read : Properties.read {} s = .ok (p, t))
      (ends : (t.atProperty && goesOn t) = false) : Group goesOn s p t
  | two {p q : Properties} {t u : Layout} (first : Properties.read {} s = .ok (p, t))
      (more : (t.atProperty && goesOn t) = true) (second : p.read t = .ok (q, u)) : Group goesOn s q u

theorem group_eq_ok : (do
    let (p, t) ← Properties.read {} s
    if t.atProperty && goesOn t then p.read t else return (p, t)) = .ok (q, u) ↔ Group goesOn s q u := by
  simp only [bind_eq_ok, Prod.exists]
  constructor
  · rintro ⟨p, t, hread, h⟩
    split at h
    · exact .two hread ‹_› h
    · cases h
      exact .one hread (eq_false_of_ne_true ‹_›)
  · rintro (⟨hread, hends⟩ | ⟨hfirst, hmore, hsecond⟩)
    · refine ⟨_, _, hread, ?_⟩
      rw [if_neg (by simp [hends])]
      rfl
    · exact ⟨_, _, hfirst, by rwa [if_pos hmore]⟩

end Properties

/-- The properties of a node in brackets, if it has any. -/
inductive FlowProperties (i : Indent) (s : Layout) : Properties → Layout → Prop where
  | none (unfit : (s.atProperty && s.within i) = false) : FlowProperties i s {} s
  | some {p : Properties} {t : Layout} (fit : (s.atProperty && s.within i) = true)
      (read : Properties.Group (Layout.within · i) s p t) : FlowProperties i s p t

theorem flowProperties_eq_ok : flowNode.properties i s = .ok (p, t) ↔ FlowProperties i s p t := by
  unfold flowNode.properties
  constructor
  · intro h
    split at h
    · exact .some ‹_› (Properties.group_eq_ok.mp h)
    · cases h
      exact .none (eq_false_of_ne_true ‹_›)
  · rintro (hunfit | ⟨hfit, hread⟩)
    · rw [if_neg (by simp [hunfit])]
      rfl
    · rw [if_pos hfit]
      exact Properties.group_eq_ok.mpr hread

theorem flowProperties_none (hat : (s.atProperty && s.within i) = false)
    (h : flowNode.properties i s = .ok (p, t)) : p = {} ∧ t = s := by
  cases flowProperties_eq_ok.mp h with
  | none => exact ⟨rfl, rfl⟩
  | some fit => simp [hat] at fit

/-! ### Content -/

def Quoted.Style.kind : Quoted.Style → Kind
  | .single => .singleQuoteScalar
  | .double => .doubleQuoteScalar

theorem quoted_eq_ok {style : Quoted.Style} : quoted style i s = .ok (content, u) ↔
    ∃ n, Quoted.length style i.floor s.rest = .ok n ∧ content = .leaf style.kind (s.cursor.spanOf n) ∧
      u = .after (s.cursor.drop n) := by
  unfold quoted
  split
  · rename_i n hn
    simp only [hn, Except.ok.injEq, Prod.mk.injEq, exists_eq_left', eq_comm (b := content), eq_comm (b := u)]
    cases style <;> rfl
  · simp_all

theorem collection_eq_ok : collection rules isMapping i s = .ok (content, u) ↔
    ∃ rest, rules.entries isMapping i (s.settle.token .mark 1).2 = .ok (rest, u) ∧
      content = .node (if isMapping then .flowMapping else .flowSequence) ((s.settle.token .mark 1).1 ++ rest) := by
  simp only [collection, bind_eq_ok, pure_eq_ok, Prod.exists, Prod.mk.injEq]
  constructor
  · rintro ⟨rest, _, hentries, rfl, rfl⟩
    exact ⟨rest, hentries, rfl⟩
  · rintro ⟨rest, hentries, rfl⟩
    exact ⟨rest, u, hentries, rfl, rfl⟩

/-- No plain scalar begins with an indicator of its own. -/
theorem at?_of_beginsPlain {c : Char} (h : beginsPlain inFlow s = true)
    (hc : isIndicator c = true ∧ c ≠ '-' ∧ c ≠ '?' ∧ c ≠ ':') : s.at? c = false := by
  obtain ⟨hindicator, hdash, hquestion, hcolon⟩ := hc
  have hbegins := (Bool.and_eq_true_iff.mp h).1
  by_contra hat
  cases hr : s.rest with
  | nil => simp [hr, Plain.begins] at hbegins
  | cons d r =>
    obtain rfl : d = c := by simpa [Layout.at?, hr] using hat
    simp [hr, Plain.begins, hdash, hquestion, hcolon, hindicator] at hbegins

theorem flowContent_of_bracket (isMapping : Bool) (h : s.at? (if isMapping then '\x7b' else '[') = true) :
    flowContent rules inFlow i s = collection rules isMapping i s := by
  cases isMapping <;> simp [flowContent, Layout.at?_eq h]

theorem flowContent_of_quote (style : Quoted.Style) (h : s.at? style.quote = true) :
    flowContent rules inFlow i s = quoted style i s := by
  cases style <;> simp [flowContent, Layout.at?_eq h, Quoted.Style.quote]

theorem flowContent_of_star {n : Nat} (h : s.at? '*' = true) (hn : nameLength? s.rest = some n) :
    flowContent rules inFlow i s = .ok (.leaf .alias (s.cursor.spanOf n), .after (s.cursor.drop n)) := by
  simp [flowContent, Layout.at?_eq h, hn]

theorem flowContent_of_plain (h : beginsPlain inFlow s = true) :
    flowContent rules inFlow i s =
      .ok (.leaf .plainScalar (s.cursor.spanOf (Plain.length inFlow i.floor s.column s.rest)),
        .after (s.cursor.drop (Plain.length inFlow i.floor s.column s.rest))) := by
  have hat {c : Char} (hc : isIndicator c = true ∧ c ≠ '-' ∧ c ≠ '?' ∧ c ≠ ':') := at?_of_beginsPlain h hc
  rw [flowContent, hat (by decide), hat (by decide), hat (by decide), hat (by decide), hat (by decide), h]
  rfl

/-- A scalar, alias or collection, told by the character it begins with. -/
inductive FlowContent (rules : Rules) (inFlow : Bool) (i : Indent) (s : Layout) : Tree → Layout → Prop where
  | collection {content : Tree} {u : Layout} (isMapping : Bool)
      (bracket : s.at? (if isMapping then '\x7b' else '[') = true)
      (read : collection rules isMapping i s = .ok (content, u)) : FlowContent rules inFlow i s content u
  | quoted {content : Tree} {u : Layout} (style : Quoted.Style) (quote : s.at? style.quote = true)
      (read : quoted style i s = .ok (content, u)) : FlowContent rules inFlow i s content u
  | reference {n : Nat} (star : s.at? '*' = true) (name : nameLength? s.rest = some n) :
      FlowContent rules inFlow i s (.leaf .alias (s.cursor.spanOf n)) (.after (s.cursor.drop n))
  | plain {n : Nat} (begins : beginsPlain inFlow s = true)
      (length : Plain.length inFlow i.floor s.column s.rest = n) :
      FlowContent rules inFlow i s (.leaf .plainScalar (s.cursor.spanOf n)) (.after (s.cursor.drop n))

theorem flowContent_eq_ok : flowContent rules inFlow i s = .ok (content, u) ↔
    FlowContent rules inFlow i s content u := by
  constructor
  · intro h
    unfold flowContent at h
    split at h
    · exact .collection false ‹_› h
    split at h
    · exact .collection true ‹_› h
    split at h
    · exact .quoted .double ‹_› h
    split at h
    · exact .quoted .single ‹_› h
    split at h
    · split at h <;> cases h
      exact .reference ‹_› ‹_›
    split at h <;> cases h
    exact .plain ‹_› rfl
  · rintro (⟨isMapping, hat, h⟩ | ⟨style, hat, h⟩ | ⟨hat, hn⟩ | ⟨hat, rfl⟩)
    · rwa [flowContent_of_bracket isMapping hat]
    · rwa [flowContent_of_quote style hat]
    · exact flowContent_of_star hat hn
    · exact flowContent_of_plain hat

/-! ### Nodes -/

/-- A plain scalar that begins with a colon goes on behind it. -/
private theorem atFlowColon_of_beginsPlain (h : beginsPlain true s = true) :
    s.atFlowColon = false := by
  have hbegins := (Bool.and_eq_true_iff.mp h).1
  unfold Layout.atFlowColon
  split
  · rename_i r hr
    rw [hr] at hbegins
    obtain _ | ⟨c, r⟩ := r
    · cases hbegins
    have hplain : isPlain true c = true := hbegins
    obtain ⟨hvisible, hflow⟩ : isVisible c = true ∧ isFlowIndicator c = false := by simpa [isPlain] using hplain
    have hgap : atGap (c :: r) = false := by
      by_contra hgap
      rw [isVisible_eq_false_of_gap (eq_true_of_ne_false hgap)] at hvisible
      cases hvisible
    simp [isFlowIndicator] at hflow
    simp [hgap, hflow]
  · rfl

/-- No node begins where properties may stand alone. -/
private theorem flowContent_goesOn (h : flowContent rules true i s = .ok (content, u)) :
    (s.atSeparator || s.atFlowColon) = false := by
  have hat {c : Char} (h : s.at? c = true) (hc : (c ≠ ',' ∧ c ≠ ']' ∧ c ≠ '\x7d') ∧ c ≠ ':') :
      (s.atSeparator || s.atFlowColon) = false := by
    have hcolon : s.atFlowColon = false := by
      by_contra hcolon
      rw [Bool.not_eq_false] at hcolon
      have := Layout.at?_of_atFlowColon hcolon
      rw [Layout.at?_unique h hc.2] at this
      cases this
    rw [Layout.atSeparator_eq_false h hc.1, hcolon]
    rfl
  cases flowContent_eq_ok.mp h with
  | collection isMapping bracket => cases isMapping <;> exact hat bracket (by decide)
  | quoted style quote => cases style <;> exact hat quote (by decide)
  | reference star => exact hat star (by decide)
  | plain begins =>
    have hat {c : Char} (hc : isIndicator c = true ∧ c ≠ '-' ∧ c ≠ '?' ∧ c ≠ ':') := at?_of_beginsPlain begins hc
    rw [Layout.atSeparator, Layout.atClosing, hat (by decide), hat (by decide), hat (by decide)]
    exact atFlowColon_of_beginsPlain begins

/-- A node in brackets: properties alone, or content with the properties before it. -/
inductive FlowNode (rules : Rules) (i : Indent) (s : Layout) : List Tree → Bool → Layout → Prop where
  | bare {p : Properties} {u : Layout} (properties : flowNode.properties i s = .ok (p, u))
      (some : p.trees.isEmpty = false) (ends : (u.atSeparator || u.atFlowColon) = true) :
      FlowNode rules i s p.bare false u
  | wrapped {p : Properties} {t u : Layout} {content : Tree} (properties : flowNode.properties i s = .ok (p, t))
      (reach : t.within i = true) (read : flowContent rules true i t = .ok (content, u))
      (alone : (content.isAlias && !p.trees.isEmpty) = false) :
      FlowNode rules i s (p.wrap .flowNode t.comments content) content.endsItself u

theorem flowNode_eq_ok : flowNode rules i s = .ok (ts, endsItself, u) ↔ FlowNode rules i s ts endsItself u := by
  constructor
  · intro h
    simp only [flowNode, bind_eq_ok, Prod.exists] at h
    obtain ⟨p, t, hprops, h⟩ := h
    split at h
    · rename_i halone
      cases h
      obtain ⟨hsome, hends⟩ := Bool.and_eq_true_iff.mp halone
      exact .bare hprops (by simpa using hsome) hends
    split at h
    · cases h
    rename_i hreach
    simp only [bind_eq_ok, Prod.exists] at h
    obtain ⟨content, v, hcontent, h⟩ := h
    split at h <;> cases h
    exact .wrapped hprops (by simpa using hreach) hcontent (eq_false_of_ne_true ‹_›)
  · intro h
    simp only [flowNode, bind_eq_ok, Prod.exists]
    cases h with
    | bare properties some ends =>
      refine ⟨_, _, properties, ?_⟩
      rw [if_pos (by simp [some, ends])]
      rfl
    | wrapped properties reach read alone =>
      refine ⟨_, _, properties, ?_⟩
      rw [if_neg (by simp [flowContent_goesOn read]), if_neg (by simp [reach])]
      simp only [bind_eq_ok, Prod.exists]
      refine ⟨_, _, read, ?_⟩
      rw [if_neg (by simp [alone])]
      rfl

/-- Where a node begins, there is neither the end of an entry nor the colon of one. -/
private theorem flowNode_goesOn (h : flowNode rules i s = .ok (ts, endsItself, u)) :
    (s.atSeparator || s.atFlowColon) = false := by
  by_cases hat : s.atProperty = true
  · by_contra hends
    rw [Layout.atProperty_eq_false (eq_true_of_ne_false hends)] at hat
    cases hat
  have hunfit : (s.atProperty && s.within i) = false := by simp [hat]
  cases flowNode_eq_ok.mp h with
  | bare properties some =>
    obtain ⟨rfl, rfl⟩ := flowProperties_none hunfit properties
    cases some
  | wrapped properties _ read =>
    obtain ⟨rfl, rfl⟩ := flowProperties_none hunfit properties
    exact flowContent_goesOn read

/-! ### Entries -/

/-- The colon of a pair and its value, none of it skipped. -/
inductive FlowValue (rules : Rules) (i : Indent) (s : Layout) : List Tree → Layout → Prop where
  | none (ends : (s.token .valueMark 1).2.atSeparator = true) :
      FlowValue rules i s (s.token .valueMark 1).1 (s.token .valueMark 1).2
  | node {value : List Tree} {endsItself : Bool} {u : Layout}
      (read : flowNode rules i (s.token .valueMark 1).2 = .ok (value, endsItself, u)) :
      FlowValue rules i s ((s.token .valueMark 1).1 ++ value) u

theorem flowValue_eq_ok (hf : Tree.hasFaultList ts = false) :
    flowValue rules isMapping i s = .ok (ts, u) ↔ FlowValue rules i s ts u := by
  constructor
  · intro h
    simp only [flowValue] at h
    split at h
    · cases h
      exact .none ‹_›
    split at h
    · cases h
      exact .node ‹_›
    · simp only [bind_eq_ok, pure_eq_ok, Prod.exists, Prod.mk.injEq] at h
      obtain ⟨skipped, v, hskip, rfl, rfl⟩ := h
      simp [Layout.skip_hasFault hskip] at hf
  · intro h
    simp only [flowValue]
    cases h with
    | none ends =>
      rw [if_pos ends]
      rfl
    | node read =>
      have hseparator := (Bool.or_eq_false_iff.mp (flowNode_goesOn read)).1
      rw [if_neg (by simp [hseparator]), read]
      rfl

/-- An entry in brackets: a pair without key, one with a key, or a node alone. -/
inductive FlowEntry (rules : Rules) (isMapping anyRow mustPair : Bool) (i : Indent) (s : Layout) :
    List Tree → Bool → Layout → Prop where
  | keyless {value : List Tree} {u : Layout} (colon : (s.atFlowColon && s.within i && !mustPair) = true)
      (read : flowValue rules isMapping i s = .ok (value, u)) :
      FlowEntry rules isMapping anyRow mustPair i s value true u
  | pair {key value : List Tree} {endsItself : Bool} {t u : Layout}
      (node : flowNode rules i s = .ok (key, endsItself, t))
      (colon : (if endsItself then t.at? ':' else t.atFlowColon) = true)
      (reach : (if anyRow then t.within i else !t.fresh) = true)
      (read : flowValue rules isMapping i t = .ok (value, u)) :
      FlowEntry rules isMapping anyRow mustPair i s (key ++ value) true u
  | node {key : List Tree} {endsItself : Bool} {u : Layout} (read : flowNode rules i s = .ok (key, endsItself, u))
      (noColon : ((if endsItself then u.at? ':' else u.atFlowColon) && if anyRow then u.within i else !u.fresh) = false)
      (mayStand : mustPair = false) : FlowEntry rules isMapping anyRow mustPair i s key false u

theorem flowEntry_eq_ok {anyRow mustPair isPair : Bool} :
    flowEntry rules isMapping anyRow mustPair i s = .ok (ts, isPair, u) ↔
      FlowEntry rules isMapping anyRow mustPair i s ts isPair u := by
  have hkeyed {key : List Tree} {endsItself : Bool} {t : Layout} (h : flowNode rules i s = .ok (key, endsItself, t)) :
      ¬(s.atFlowColon && s.within i && !mustPair) = true := by
    simp [(Bool.or_eq_false_iff.mp (flowNode_goesOn h)).2]
  constructor
  · intro h
    unfold flowEntry at h
    split at h
    · simp only [bind_eq_ok, pure_eq_ok, Prod.exists, Prod.mk.injEq] at h
      obtain ⟨value, v, hvalue, rfl, rfl, rfl⟩ := h
      exact .keyless ‹_› hvalue
    simp only [bind_eq_ok, Prod.exists] at h
    obtain ⟨key, endsItself, t, hkey, h⟩ := h
    by_cases hcolon : ((if endsItself then t.at? ':' else t.atFlowColon) &&
        if anyRow then t.within i else !t.fresh) = true
    · rw [if_pos hcolon] at h
      simp only [bind_eq_ok, pure_eq_ok, Prod.exists, Prod.mk.injEq] at h
      obtain ⟨value, v, hvalue, rfl, rfl, rfl⟩ := h
      obtain ⟨hat, hreach⟩ := Bool.and_eq_true_iff.mp hcolon
      exact .pair hkey hat hreach hvalue
    · rw [if_neg hcolon] at h
      split at h <;> cases h
      exact .node hkey (eq_false_of_ne_true hcolon) (eq_false_of_ne_true ‹_›)
  · intro h
    unfold flowEntry
    cases h with
    | keyless colon read =>
      rw [if_pos colon, read]
      rfl
    | pair node colon reach read =>
      rw [if_neg (hkeyed node)]
      simp only [bind_eq_ok, Prod.exists]
      refine ⟨_, _, _, node, ?_⟩
      rw [if_pos (Bool.and_eq_true_iff.mpr ⟨colon, reach⟩), read]
      rfl
    | node read noColon mayStand =>
      rw [if_neg (hkeyed read)]
      simp only [bind_eq_ok, Prod.exists]
      refine ⟨_, _, _, read, ?_⟩
      rw [if_neg (by simp [noColon]), if_neg (by simp [mayStand])]
      rfl

/-- What stands behind the comments before an entry: a question mark alone, one with a pair behind it, or
an entry without question mark. -/
inductive FlowItem (rules : Rules) (isMapping : Bool) (i : Indent) (s : Layout) : List Tree → Layout → Prop where
  | mark (question : (s.atMark '?' && s.within i) = true) (ends : (s.token .mark 1).2.atSeparator = true) :
      FlowItem rules isMapping i s [.node .flowPair (s.token .mark 1).1] (s.token .mark 1).2
  | marked {pair : List Tree} {isPair : Bool} {u : Layout} (question : (s.atMark '?' && s.within i) = true)
      (read : flowEntry rules isMapping true true i (s.token .mark 1).2 = .ok (pair, isPair, u)) :
      FlowItem rules isMapping i s [.node .flowPair ((s.token .mark 1).1 ++ pair)] u
  | entry {parts : List Tree} {isPair : Bool} {u : Layout} (noQuestion : (s.atMark '?' && s.within i) = false)
      (read : flowEntry rules isMapping isMapping false i s = .ok (parts, isPair, u)) :
      FlowItem rules isMapping i s (if isPair then [.node .flowPair parts] else parts) u

theorem flowItem_eq_ok : flowItem rules isMapping i s = .ok (ts, u) ↔
    ∃ us, ts = s.comments ++ us ∧ FlowItem rules isMapping i s.settle us u := by
  constructor
  · intro h
    simp only [flowItem] at h
    split at h
    · split at h
      · cases h
        exact ⟨_, rfl, .mark ‹_› ‹_›⟩
      · simp only [bind_eq_ok, pure_eq_ok, Prod.exists, Prod.mk.injEq] at h
        obtain ⟨pair, _, v, hentry, rfl, rfl⟩ := h
        exact ⟨_, rfl, .marked ‹_› hentry⟩
    · simp only [bind_eq_ok, pure_eq_ok, Prod.exists, Prod.mk.injEq] at h
      obtain ⟨parts, isPair, v, hentry, rfl, rfl⟩ := h
      exact ⟨_, rfl, .entry (eq_false_of_ne_true ‹_›) hentry⟩
  · rintro ⟨us, rfl, h⟩
    simp only [flowItem]
    cases h with
    | mark question ends =>
      rw [if_pos question, if_pos ends]
      rfl
    | marked question read =>
      have hends : (s.settle.token .mark 1).2.atSeparator = false := by
        cases flowEntry_eq_ok.mp read with
        | keyless colon => simp at colon
        | pair node => exact (Bool.or_eq_false_iff.mp (flowNode_goesOn node)).1
        | node _ _ mayStand => cases mayStand
      rw [if_pos question, if_neg (by simp [hends]), read]
      rfl
    | entry noQuestion read =>
      rw [if_neg (by simp [noQuestion]), read]
      rfl

/-- The comments before an entry have no part in how it is read. -/
theorem flowItem_settle : flowItem rules isMapping i s = .ok (s.comments ++ ts, u) ↔
    flowItem rules isMapping i s.settle = .ok (ts, u) := by
  constructor
  · intro h
    obtain ⟨us, hus, hitem⟩ := flowItem_eq_ok.mp h
    obtain rfl := List.append_cancel_left hus
    exact flowItem_eq_ok.mpr ⟨ts, rfl, hitem⟩
  · intro h
    obtain ⟨us, hus, hitem⟩ := flowItem_eq_ok.mp h
    exact flowItem_eq_ok.mpr ⟨us, congrArg (s.comments ++ ·) hus, hitem⟩

/-- The entries of a collection, none of them skipped: the closing bracket, or an item and then a comma with
further entries or the bracket. -/
inductive FlowEntries (rules : Rules) (isMapping : Bool) (i : Indent) (s : Layout) : List Tree → Layout → Prop where
  | closed {mark : List Tree} {u : Layout} (closing : flowClosing isMapping i s = some (mark, u)) :
      FlowEntries rules isMapping i s mark u
  | comma {item rest : List Tree} {t u : Layout} (isOpen : flowClosing isMapping i s = none)
      (read : flowItem rules isMapping i s = .ok (item, t)) (comma : (t.at? ',' && t.within i) = true)
      (more : rules.entries isMapping i (t.token .mark 1).2 = .ok (rest, u)) :
      FlowEntries rules isMapping i s (item ++ (t.token .mark 1).1 ++ rest) u
  | last {item mark : List Tree} {t u : Layout} (isOpen : flowClosing isMapping i s = none)
      (read : flowItem rules isMapping i s = .ok (item, t)) (closing : flowClosing isMapping i t = some (mark, u)) :
      FlowEntries rules isMapping i s (item ++ mark) u

theorem flowClosing_eq_some : flowClosing isMapping i s = some (ts, u) ↔
    s.at? (if isMapping then '\x7d' else ']') = true ∧ (s.within i || s.isLevel i) = true ∧
      (ts, u) = s.token .mark 1 := by
  simp only [flowClosing, Option.ite_none_right_eq_some, Bool.and_eq_true, Option.some.injEq, and_assoc,
    eq_comm (a := s.token .mark 1)]

theorem flowEntries_eq_ok (hf : Tree.hasFaultList ts = false) :
    flowEntries rules isMapping i s = .ok (ts, u) ↔ FlowEntries rules isMapping i s ts u := by
  constructor
  · intro h
    unfold flowEntries at h
    split at h
    · cases h
      exact .closed ‹_›
    rename_i hnone
    simp only [bind_eq_ok, Prod.exists] at h
    obtain ⟨item, t, hitem, h⟩ := h
    have unskipped (hf : Tree.hasFaultList item = false) := Layout.orSkip_eq_ok hitem hf
    split at h
    · simp only [bind_eq_ok, pure_eq_ok, Prod.exists, Prod.mk.injEq] at h
      obtain ⟨rest, v, hrest, rfl, rfl⟩ := h
      simp only [Tree.hasFaultList_append, Bool.or_eq_false_iff] at hf
      exact .comma hnone (unskipped hf.1.1) ‹_› hrest
    split at h
    · cases h
      rw [Tree.hasFaultList_append, Bool.or_eq_false_iff] at hf
      exact .last hnone (unskipped hf.1) ‹_›
    simp only [bind_eq_ok, pure_eq_ok, Prod.exists, Prod.mk.injEq] at h
    obtain ⟨skipped, v, hskip, rfl, rfl⟩ := h
    simp only [Tree.hasFaultList_append, Bool.or_eq_false_iff] at hf
    exact absurd (Layout.orSkip_eq_ok hskip hf.1.2) (fault_ne_ok _ _)
  · intro h
    unfold flowEntries
    cases h with
    | closed closing =>
      rw [closing]
      rfl
    | comma isOpen read comma more =>
      rw [isOpen, read]
      refine bind_eq_ok.mpr ⟨_, rfl, ?_⟩
      dsimp only
      rw [if_pos comma, more]
      rfl
    | @last item mark t _ isOpen read closing =>
      have hcomma : t.at? ',' = false := by
        cases isMapping <;> exact Layout.at?_unique (flowClosing_eq_some.mp closing).1 (by decide)
      rw [isOpen, read]
      refine bind_eq_ok.mpr ⟨_, rfl, ?_⟩
      dsimp only
      rw [if_neg (by simp [hcomma]), closing]
      rfl

end YamlOutline.Syntax
