import YamlOutline.Proofs.Syntax.FlowRules

/-! What the rules of nodes that are laid out by indentation have read where they succeed. As in brackets,
each of them goes one of a few ways, and what holds on a way is enough to go it. -/

namespace YamlOutline.Syntax
variable {s t u : Layout} {i j : Indent} {rules : Rules} {content : Tree} {key ts : List Tree}
  {p q : Properties} {compact level : Bool}

/-! ### Marks -/

namespace Layout

theorem at?_eq_of_atMark {c : Char} (h : s.atMark c = true) : s.at? c = true := by
  unfold atMark at h
  split at h
  · rename_i d r hr
    simpa [at?, hr] using (Bool.and_eq_true_iff.mp h).1
  · cases h

/-- Where one character is next, another one is no mark. -/
theorem atMark_eq_false {c d : Char} (h : s.at? c = true) (hd : c ≠ d) : s.atMark d = false := by
  by_contra hmark
  have := at?_eq_of_atMark (eq_true_of_ne_false hmark)
  rw [at?_unique h hd] at this
  cases this

theorem atMark_unique {c d : Char} (h : s.atMark c = true) (hd : c ≠ d) : s.atMark d = false :=
  atMark_eq_false (at?_eq_of_atMark h) hd

theorem at?_of_atProperty (h : s.atProperty = true) : ∃ c, s.at? c = true ∧ (c = '&' ∨ c = '!') :=
  ((Bool.or_eq_true _ _).mp h).elim (fun h => ⟨_, h, .inl rfl⟩) fun h => ⟨_, h, .inr rfl⟩

end Layout

theorem isKeyColon_colon {row : Nat} (h : isKeyColon s row = true) :
    s.atMark ':' = true ∧ s.fresh = false := by
  simp only [isKeyColon, Bool.and_eq_true, Bool.not_eq_true'] at h
  exact h.1

/-- Where a plain scalar begins, an indicator has no gap behind it. -/
private theorem atMark_of_beginsPlain {inFlow : Bool} {c : Char} (h : beginsPlain inFlow s = true)
    (hc : (c == '-' || c == '?' || c == ':') = true) : s.atMark c = false := by
  have hbegins := (Bool.and_eq_true_iff.mp h).1
  unfold Layout.atMark
  split
  · rename_i d r hr
    by_contra hmark
    obtain ⟨hd, hgap⟩ := Bool.and_eq_true_iff.mp (eq_true_of_ne_false hmark)
    obtain rfl := eq_of_beq hd
    rw [hr, Plain.begins, if_pos hc, Plain.isHead_of_atGap inFlow hgap] at hbegins
    cases hbegins
  · rfl

/-- A node in flow style begins with no mark of a block. -/
theorem flowContent_no_mark (h : flowContent rules false i s = .ok (content, u)) :
    s.atMark '-' = false ∧ s.atMark '?' = false ∧ s.atMark ':' = false ∧
      s.at? '|' = false ∧ s.at? '>' = false ∧ s.atEnd = false := by
  have hat {c : Char} (h : s.at? c = true)
      (hc : (c ≠ '-' ∧ c ≠ '?' ∧ c ≠ ':' ∧ c ≠ '|' ∧ c ≠ '>') ∧ isNull c = false) :
      s.atMark '-' = false ∧ s.atMark '?' = false ∧ s.atMark ':' = false ∧
        s.at? '|' = false ∧ s.at? '>' = false ∧ s.atEnd = false := by
    obtain ⟨⟨hdash, hquestion, hcolon, hbar, hfold⟩, hnull⟩ := hc
    exact ⟨Layout.atMark_eq_false h hdash, Layout.atMark_eq_false h hquestion, Layout.atMark_eq_false h hcolon,
      Layout.at?_unique h hbar, Layout.at?_unique h hfold, Layout.atEnd_eq_false h hnull⟩
  cases flowContent_eq_ok.mp h with
  | collection isMapping bracket => cases isMapping <;> exact hat bracket (by decide)
  | quoted style quote => cases style <;> exact hat quote (by decide)
  | reference star => exact hat star (by decide)
  | plain begins =>
    exact ⟨atMark_of_beginsPlain begins rfl, atMark_of_beginsPlain begins rfl, atMark_of_beginsPlain begins rfl,
      at?_of_beginsPlain begins (by decide), at?_of_beginsPlain begins (by decide), flowContent_more h⟩

/-- A node in flow style begins behind its properties. -/
theorem flowContent_no_property {inFlow : Bool} (h : flowContent rules inFlow i s = .ok (content, u)) :
    s.atProperty = false := by
  have hat {c : Char} (h : s.at? c = true) (hc : c ≠ '&' ∧ c ≠ '!') : s.atProperty = false := by
    rw [Layout.atProperty, Layout.at?_unique h hc.1, Layout.at?_unique h hc.2, Bool.or_false]
  cases flowContent_eq_ok.mp h with
  | collection isMapping bracket => cases isMapping <;> exact hat bracket (by decide)
  | quoted style quote => cases style <;> exact hat quote (by decide)
  | reference star => exact hat star (by decide)
  | plain begins =>
    rw [Layout.atProperty, at?_of_beginsPlain begins (by decide), at?_of_beginsPlain begins (by decide), Bool.or_false]

/-! ### Keys -/

/-- The properties in the row of a node, if there are any. -/
inductive RowProperties (s : Layout) : Properties → Layout → Prop where
  | none (unfit : s.atProperty = false) : RowProperties s {} s
  | some {p : Properties} {t : Layout} (fit : s.atProperty = true)
      (read : Properties.Group (fun t => !t.fresh) s.settle p t) : RowProperties s p t

theorem rowProperties_eq_ok : rowProperties s = .ok (p, t) ↔ RowProperties s p t := by
  unfold rowProperties
  constructor
  · intro h
    split at h
    · exact .some ‹_› (Properties.group_eq_ok.mp h)
    · cases h
      exact .none (eq_false_of_ne_true ‹_›)
  · rintro (hunfit | ⟨hfit, hread⟩)
    · rw [if_neg (by simp [hunfit])]
      rfl
    · rw [if_pos hfit]
      exact Properties.group_eq_ok.mpr hread

theorem rowProperties_none (hat : s.atProperty = false) (h : rowProperties s = .ok (p, t)) : p = {} ∧ t = s := by
  cases rowProperties_eq_ok.mp h with
  | none => exact ⟨rfl, rfl⟩
  | some fit => simp [hat] at fit

private theorem plainKey_noKey_ne_ok : plainKey.noKey rules i s ≠ .ok (key, t) := by
  intro h
  simp only [plainKey.noKey, bind_eq_ok, Prod.exists] at h
  obtain ⟨_, _, _, h⟩ := h
  exact fault_ne_ok _ _ h

/-- A key without indicator: properties alone, or content with the properties before it. -/
inductive PlainKey (rules : Rules) (i : Indent) (s : Layout) : List Tree → Layout → Prop where
  | bare {p : Properties} {u : Layout} (properties : rowProperties s = .ok (p, u))
      (some : p.trees.isEmpty = false) (colon : isKeyColon u s.cursor.row = true) : PlainKey rules i s p.bare u
  | wrapped {p : Properties} {t u : Layout} {content : Tree} (properties : rowProperties s = .ok (p, t))
      (inRow : (t.fresh && !p.trees.isEmpty) = false) (read : flowContent rules false i t = .ok (content, u))
      (alone : (content.isAlias && !p.trees.isEmpty) = false) (colon : isKeyColon u s.cursor.row = true) :
      PlainKey rules i s (p.wrap .flowNode [] content) u

theorem plainKey_eq_ok : plainKey rules i s = .ok (key, u) ↔ PlainKey rules i s key u := by
  simp only [plainKey, bind_eq_ok, Prod.exists]
  constructor
  · rintro ⟨p, t, hprops, h⟩
    split at h
    · rename_i halone
      cases h
      obtain ⟨hcolon, hsome⟩ := Bool.and_eq_true_iff.mp halone
      exact .bare hprops (by simpa using hsome) hcolon
    split at h
    · cases h
    rename_i hinRow
    split at h
    · rename_i content v hcontent
      split at h
      · cases h
      rename_i halias
      split at h
      · cases h
        exact .wrapped hprops (eq_false_of_ne_true hinRow) hcontent (eq_false_of_ne_true halias) ‹_›
      · exact absurd h plainKey_noKey_ne_ok
    · exact absurd h plainKey_noKey_ne_ok
  · intro h
    cases h with
    | bare properties some colon =>
      refine ⟨_, _, properties, ?_⟩
      rw [if_pos (by simp [some, colon])]
      rfl
    | @wrapped _ t _ _ properties inRow read alone colon =>
      have hkey : isKeyColon t s.cursor.row = false := by
        rw [isKeyColon, (flowContent_no_mark read).2.2.1, Bool.false_and, Bool.false_and]
      refine ⟨_, _, properties, ?_⟩
      rw [if_neg (by simp [hkey]), if_neg (by simp [inRow]), read]
      dsimp only
      rw [if_neg (by simp [alone]), if_pos colon]
      rfl

/-- A key without indicator begins with no mark. -/
theorem plainKey_no_mark (h : plainKey rules i s = .ok (key, u)) : (s.atMark '?' || s.atMark ':') = false := by
  cases hat : s.atProperty with
  | true =>
    obtain ⟨c, hc, hcs⟩ := Layout.at?_of_atProperty hat
    have hmark (d : Char) (hd : d ≠ '&' ∧ d ≠ '!') : s.atMark d = false :=
      Layout.atMark_eq_false hc (by rintro rfl; exact hcs.elim hd.1 hd.2)
    rw [hmark '?' (by decide), hmark ':' (by decide), Bool.or_false]
  | false =>
    cases plainKey_eq_ok.mp h with
    | bare properties some =>
      obtain ⟨rfl, -⟩ := rowProperties_none hat properties
      cases some
    | wrapped properties _ read =>
      obtain ⟨-, rfl⟩ := rowProperties_none hat properties
      obtain ⟨-, hquestion, hcolon, -⟩ := flowContent_no_mark read
      rw [hquestion, hcolon, Bool.or_false]

/-! ### Pairs -/

theorem keyValue_eq_ok : keyValue rules j key t = .ok (ts, u) ↔
    ∃ value, rules.value j false true {} (t.token .valueMark 1).2 = .ok (value, u) ∧
      ts = [.node .blockMappingPair (key ++ (t.token .valueMark 1).1 ++ value)] := by
  simp only [keyValue, bind_eq_ok, pure_eq_ok, Prod.exists, Prod.mk.injEq]
  constructor
  · rintro ⟨value, _, hvalue, rfl, rfl⟩
    exact ⟨value, hvalue, rfl⟩
  · rintro ⟨value, hvalue, rfl⟩
    exact ⟨value, u, hvalue, rfl, rfl⟩

/-- A pair of a block mapping: a marked key with a value or without, a value without key, or a key without
indicator and its value. -/
inductive Pair (rules : Rules) (i : Indent) (s : Layout) : List Tree → Layout → Prop where
  | marked {key value : List Tree} {t u : Layout} (question : s.atMark '?' = true)
      (keyRead : rules.value i true true {} (s.settle.token .mark 1).2 = .ok (key, t))
      (colon : (t.atMark ':' && t.isLevel i) = true)
      (valueRead : rules.value i true true {} (t.token .valueMark 1).2 = .ok (value, u)) :
      Pair rules i s [.node .blockMappingPair
        ((s.settle.token .mark 1).1 ++ key ++ (t.token .valueMark 1).1 ++ value)] u
  | valueless {key : List Tree} {u : Layout} (question : s.atMark '?' = true)
      (read : rules.value i true true {} (s.settle.token .mark 1).2 = .ok (key, u))
      (noColon : (u.atMark ':' && u.isLevel i) = false) :
      Pair rules i s [.node .blockMappingPair ((s.settle.token .mark 1).1 ++ key)] u
  | keyless {value : List Tree} {u : Layout} (colon : s.atMark ':' = true)
      (read : rules.value i true true {} (s.settle.token .valueMark 1).2 = .ok (value, u)) :
      Pair rules i s [.node .blockMappingPair ((s.settle.token .valueMark 1).1 ++ value)] u
  | keyed {key ts : List Tree} {t u : Layout} (plain : plainKey rules i s.settle = .ok (key, t))
      (read : keyValue rules i key t = .ok (ts, u)) : Pair rules i s ts u

theorem pair_eq_ok : pair rules i s = .ok (ts, u) ↔ Pair rules i s ts u := by
  have hsettle (c : Char) : s.settle.atMark c = s.atMark c := rfl
  simp only [pair, hsettle]
  constructor
  · intro h
    split at h
    · simp only [bind_eq_ok, Prod.exists] at h
      obtain ⟨key, t, hkey, h⟩ := h
      split at h
      · simp only [bind_eq_ok, pure_eq_ok, Prod.exists, Prod.mk.injEq] at h
        obtain ⟨value, v, hvalue, rfl, rfl⟩ := h
        exact .marked ‹_› hkey ‹_› hvalue
      · cases h
        exact .valueless ‹_› hkey (eq_false_of_ne_true ‹_›)
    split at h
    · simp only [bind_eq_ok, pure_eq_ok, Prod.exists, Prod.mk.injEq] at h
      obtain ⟨value, v, hvalue, rfl, rfl⟩ := h
      exact .keyless ‹_› hvalue
    · simp only [bind_eq_ok, Prod.exists] at h
      obtain ⟨key, t, hkey, h⟩ := h
      exact .keyed hkey h
  · rintro (⟨hquestion, hkey, hcolon, hvalue⟩ | ⟨hquestion, hkey, hnone⟩ | ⟨hcolon, hvalue⟩ | ⟨hkey, hread⟩)
    · rw [if_pos hquestion]
      refine bind_eq_ok.mpr ⟨_, hkey, ?_⟩
      dsimp only
      rw [if_pos hcolon]
      exact bind_eq_ok.mpr ⟨_, hvalue, rfl⟩
    · rw [if_pos hquestion]
      refine bind_eq_ok.mpr ⟨_, hkey, ?_⟩
      dsimp only
      rw [if_neg (by simp [hnone])]
      rfl
    · rw [if_neg (by simp [Layout.atMark_unique hcolon (show ':' ≠ '?' by decide)]), if_pos hcolon]
      exact bind_eq_ok.mpr ⟨_, hvalue, rfl⟩
    · obtain ⟨hquestion, hcolon⟩ := Bool.or_eq_false_iff.mp (plainKey_no_mark hkey)
      rw [if_neg (by simp [← hsettle, hquestion]), if_neg (by simp [← hsettle, hcolon])]
      exact bind_eq_ok.mpr ⟨_, hkey, hread⟩

/-! ### Collections -/

theorem item_eq_ok : blockItems.item rules i s = .ok (ts, u) ↔
    ∃ value, rules.value i true false {} (s.settle.token .mark 1).2 = .ok (value, u) ∧
      ts = [.node .blockSequenceItem ((s.settle.token .mark 1).1 ++ value)] := by
  simp only [blockItems.item, bind_eq_ok, pure_eq_ok, Prod.exists, Prod.mk.injEq]
  constructor
  · rintro ⟨value, _, hvalue, rfl, rfl⟩
    exact ⟨value, hvalue, rfl⟩
  · rintro ⟨value, hvalue, rfl⟩
    exact ⟨value, u, hvalue, rfl, rfl⟩

theorem sequence_eq_ok : sequence rules j s = .ok (content, u) ↔
    ∃ first t rest, blockItems.item rules j s = .ok (first, t) ∧ rules.items j t = .ok (rest, u) ∧
      content = .node .blockSequence (first ++ rest) := by
  simp only [sequence, mapError_eq_ok, bind_eq_ok, pure_eq_ok, Prod.exists, Prod.mk.injEq]
  constructor
  · rintro ⟨first, t, hfirst, rest, _, hrest, rfl, rfl⟩
    exact ⟨first, t, rest, hfirst, hrest, rfl⟩
  · rintro ⟨first, t, rest, hfirst, hrest, rfl⟩
    exact ⟨first, t, hfirst, rest, u, hrest, rfl, rfl⟩

theorem mapping_eq_ok {first : Step} : mapping rules j first = .ok (content, u) ↔
    ∃ us t rest, first = .ok (us, t) ∧ rules.pairs j t = .ok (rest, u) ∧
      content = .node .blockMapping (us ++ rest) := by
  simp only [mapping, mapError_eq_ok, bind_eq_ok, pure_eq_ok, Prod.exists, Prod.mk.injEq]
  constructor
  · rintro ⟨us, t, hus, rest, _, hrest, rfl, rfl⟩
    exact ⟨us, t, rest, hus, hrest, rfl⟩
  · rintro ⟨us, t, rest, hus, hrest, rfl⟩
    exact ⟨us, t, hus, rest, u, hrest, rfl, rfl⟩

/-! ### Nodes -/

/-- What follows the properties `q` in their row: nothing, so that they join the node of a later row, or a
node that carries them, or the first key of a mapping that carries them. -/
inductive NodeAfter (rules : Rules) (i : Indent) (compact level : Bool) (p q : Properties) (s t : Layout) :
    List Tree → Layout → Prop where
  | later {r : Properties} {ts : List Tree} {u : Layout} (ends : (t.fresh || t.atEnd) = true)
      (join : p.join? { q with before := s.comments } = some r)
      (read : rules.value i compact level r t = .ok (ts, u)) : NodeAfter rules i compact level p q s t ts u
  | keyless {content : Tree} {u : Layout} (inRow : t.fresh = false) (colon : t.atMark ':' = true)
      (opens : ((compact || s.fresh) && !s.tabbed) = true)
      (read : mapping rules (i.nested s.column false) (keyValue rules (i.nested s.column false) q.bare t) =
        .ok (content, u)) :
      NodeAfter rules i compact level p q s t (p.wrap .blockNode s.comments content) u
  | scalar {r : Properties} {content : Tree} {u : Layout} (inRow : t.fresh = false)
      (header : (t.at? '|' || t.at? '>') = true) (read : blockScalar i t = .ok (content, u))
      (join : p.join? { q with before := s.comments } = some r) :
      NodeAfter rules i compact level p q s t (r.wrap .blockNode [] content) u
  | keyed {key content : Tree} {v u : Layout} (inRow : t.fresh = false)
      (keyRead : flowContent rules false i t = .ok (key, v)) (noAlias : key.isAlias = false)
      (colon : isKeyColon v s.cursor.row = true) (opens : ((compact || s.fresh) && !s.tabbed) = true)
      (read : mapping rules (i.nested s.column false)
        (keyValue rules (i.nested s.column false) (q.wrap .flowNode [] key) v) = .ok (content, u)) :
      NodeAfter rules i compact level p q s t (p.wrap .blockNode s.comments content) u
  | content {r : Properties} {content : Tree} {u : Layout} (inRow : t.fresh = false)
      (read : flowContent rules false i t = .ok (content, u)) (noAlias : content.isAlias = false)
      (noKey : (isKeyColon u s.cursor.row && ((compact || s.fresh) && !s.tabbed)) = false)
      (join : p.join? { q with before := s.comments } = some r) :
      NodeAfter rules i compact level p q s t (r.wrap .flowNode [] content) u

theorem nodeAfter_eq_ok (hf : Tree.hasFaultList ts = false) :
    nodeAfter rules i compact level p q s t = .ok (ts, u) ↔ NodeAfter rules i compact level p q s t ts u := by
  simp only [nodeAfter]
  constructor
  · intro h
    split at h
    · split at h
      · exact .later ‹_› ‹_› h
      · cases h
    rename_i hgoesOn
    obtain ⟨hinRow, -⟩ := Bool.or_eq_false_iff.mp (eq_false_of_ne_true hgoesOn)
    split at h
    · split at h
      · simp only [bind_eq_ok, pure_eq_ok, Prod.exists, Prod.mk.injEq] at h
        obtain ⟨content, v, hread, rfl, rfl⟩ := h
        exact .keyless hinRow ‹_› ‹_› hread
      · cases h
    split at h
    · simp only [bind_eq_ok, Prod.exists] at h
      obtain ⟨content, v, hread, h⟩ := h
      split at h <;> cases h
      exact .scalar hinRow ‹_› hread ‹_›
    split at h
    · simp only [bind_eq_ok, Prod.exists] at h
      obtain ⟨skipped, v, hskip, h⟩ := h
      split at h
      · simp only [bind_eq_ok, pure_eq_ok, Prod.exists, Prod.mk.injEq] at h
        obtain ⟨rest, w, -, rfl, -⟩ := h
        simp [Layout.skip_hasFault hskip] at hf
      · cases h
    · rename_i content v hcontent
      split at h
      · cases h
      rename_i halias
      split at h
      · rename_i hkey
        obtain ⟨hcolon, hopens⟩ := Bool.and_eq_true_iff.mp hkey
        simp only [bind_eq_ok, pure_eq_ok, Prod.exists, Prod.mk.injEq] at h
        obtain ⟨whole, w, hread, rfl, rfl⟩ := h
        exact .keyed hinRow hcontent (eq_false_of_ne_true halias) hcolon hopens hread
      · rename_i hkey
        split at h <;> cases h
        exact .content hinRow hcontent (eq_false_of_ne_true halias) (eq_false_of_ne_true hkey) ‹_›
  · intro h
    -- a token in the row of the properties
    have goesOn (hinRow : t.fresh = false) (hend : t.atEnd = false) : ¬(t.fresh || t.atEnd) = true := by
      simp [hinRow, hend]
    cases h with
    | later ends join read =>
      rw [if_pos ends, join]
      exact read
    | keyless inRow colon opens read =>
      have hend := Layout.atEnd_eq_false (Layout.at?_eq_of_atMark colon) rfl
      rw [if_neg (goesOn inRow hend), if_pos colon, if_pos opens]
      exact bind_eq_ok.mpr ⟨_, read, rfl⟩
    | scalar inRow header read join =>
      have hat : t.atEnd = false ∧ t.atMark ':' = false := by
        rcases (Bool.or_eq_true _ _).mp header with h | h
        · exact ⟨Layout.atEnd_eq_false h rfl, Layout.atMark_eq_false h (by decide)⟩
        · exact ⟨Layout.atEnd_eq_false h rfl, Layout.atMark_eq_false h (by decide)⟩
      rw [if_neg (goesOn inRow hat.1), if_neg (by simp [hat.2]), if_pos header, join]
      exact bind_eq_ok.mpr ⟨_, read, rfl⟩
    | keyed inRow keyRead noAlias colon opens read =>
      obtain ⟨-, -, hcolon, hbar, hfold, hend⟩ := flowContent_no_mark keyRead
      rw [if_neg (goesOn inRow hend), if_neg (by simp [hcolon]), if_neg (by simp [hbar, hfold]), keyRead]
      dsimp only
      rw [if_neg (by simp [noAlias]), if_pos (Bool.and_eq_true_iff.mpr ⟨colon, opens⟩)]
      exact bind_eq_ok.mpr ⟨_, read, rfl⟩
    | content inRow read noAlias noKey join =>
      obtain ⟨-, -, hcolon, hbar, hfold, hend⟩ := flowContent_no_mark read
      rw [if_neg (goesOn inRow hend), if_neg (by simp [hcolon]), if_neg (by simp [hbar, hfold]), read]
      dsimp only
      rw [if_neg (by simp [noAlias]), if_neg (by simp [noKey]), join]
      rfl

/-- A node: a collection or a block scalar by the token it begins with, a node that begins with properties, a
mapping by the colon behind its first key, or content. -/
inductive NodeHere (rules : Rules) (i : Indent) (compact level : Bool) (p : Properties) (s : Layout) :
    List Tree → Layout → Prop where
  | sequence {content : Tree} {u : Layout} (dash : s.atMark '-' = true)
      (opens : ((compact || s.fresh) && !s.tabbed) = true)
      (read : sequence rules (i.nested s.column true) s = .ok (content, u)) :
      NodeHere rules i compact level p s (p.wrap .blockNode s.comments content) u
  | marked {content : Tree} {u : Layout} (mark : (s.atMark '?' || s.atMark ':') = true)
      (opens : ((compact || s.fresh) && !s.tabbed) = true)
      (read : mapping rules (i.nested s.column false) (pair rules (i.nested s.column false) s) = .ok (content, u)) :
      NodeHere rules i compact level p s (p.wrap .blockNode s.comments content) u
  | scalar {content : Tree} {u : Layout} (header : (s.at? '|' || s.at? '>') = true)
      (read : blockScalar i s = .ok (content, u)) :
      NodeHere rules i compact level p s (p.wrap .blockNode s.comments content) u
  | decorated {q : Properties} {ts : List Tree} {t u : Layout} (property : s.atProperty = true)
      (properties : rowProperties s = .ok (q, t)) (read : nodeAfter rules i compact level p q s t = .ok (ts, u)) :
      NodeHere rules i compact level p s ts u
  | keyed {key content : Tree} {t u : Layout} (keyRead : flowContent rules false i s = .ok (key, t))
      (colon : isKeyColon t s.cursor.row = true) (opens : ((compact || s.fresh) && !s.tabbed) = true)
      (read : mapping rules (i.nested s.column false)
        (keyValue rules (i.nested s.column false) [.node .flowNode [key]] t) = .ok (content, u)) :
      NodeHere rules i compact level p s (p.wrap .blockNode s.comments content) u
  | content {content : Tree} {u : Layout} (read : flowContent rules false i s = .ok (content, u))
      (noKey : (isKeyColon u s.cursor.row && ((compact || s.fresh) && !s.tabbed)) = false)
      (alone : (content.isAlias && !p.trees.isEmpty) = false) :
      NodeHere rules i compact level p s (p.wrap .flowNode s.comments content) u

theorem nodeHere_eq_ok : nodeHere rules i compact level p s = .ok (ts, u) ↔
    NodeHere rules i compact level p s ts u := by
  simp only [nodeHere]
  constructor
  · intro h
    split at h
    · split at h
      · simp only [bind_eq_ok, pure_eq_ok, Prod.exists, Prod.mk.injEq] at h
        obtain ⟨content, v, hread, rfl, rfl⟩ := h
        exact .sequence ‹_› ‹_› hread
      · cases h
    split at h
    · split at h
      · simp only [bind_eq_ok, pure_eq_ok, Prod.exists, Prod.mk.injEq] at h
        obtain ⟨content, v, hread, rfl, rfl⟩ := h
        exact .marked ‹_› ‹_› hread
      · cases h
    split at h
    · simp only [bind_eq_ok, pure_eq_ok, Prod.exists, Prod.mk.injEq] at h
      obtain ⟨content, v, hread, rfl, rfl⟩ := h
      exact .scalar ‹_› hread
    split at h
    · simp only [afterProperties, bind_eq_ok, Prod.exists] at h
      obtain ⟨q, t, hprops, hread⟩ := h
      exact .decorated ‹_› hprops hread
    simp only [bind_eq_ok, Prod.exists] at h
    obtain ⟨content, t, hcontent, h⟩ := h
    split at h
    · rename_i hkey
      obtain ⟨hcolon, hopens⟩ := Bool.and_eq_true_iff.mp hkey
      simp only [bind_eq_ok, pure_eq_ok, Prod.exists, Prod.mk.injEq] at h
      obtain ⟨whole, v, hread, rfl, rfl⟩ := h
      exact .keyed hcontent hcolon hopens hread
    · rename_i hkey
      split at h <;> cases h
      exact .content hcontent (eq_false_of_ne_true hkey) (eq_false_of_ne_true ‹_›)
  · intro h
    -- a token that is no mark of a collection
    have noMark {c : Char} (hat : s.at? c = true) (hc : c ≠ '-' ∧ c ≠ '?' ∧ c ≠ ':') :
        ¬s.atMark '-' = true ∧ ¬(s.atMark '?' || s.atMark ':') = true := by
      simp [Layout.atMark_eq_false hat hc.1, Layout.atMark_eq_false hat hc.2.1, Layout.atMark_eq_false hat hc.2.2]
    cases h with
    | sequence dash opens read =>
      rw [if_pos dash, if_pos opens]
      exact bind_eq_ok.mpr ⟨_, read, rfl⟩
    | marked mark opens read =>
      have hdash : s.atMark '-' = false := by
        rcases (Bool.or_eq_true _ _).mp mark with h | h <;> exact Layout.atMark_unique h (by decide)
      rw [if_neg (by simp [hdash]), if_pos mark, if_pos opens]
      exact bind_eq_ok.mpr ⟨_, read, rfl⟩
    | scalar header read =>
      have hmark : ¬s.atMark '-' = true ∧ ¬(s.atMark '?' || s.atMark ':') = true := by
        rcases (Bool.or_eq_true _ _).mp header with h | h <;> exact noMark h (by decide)
      rw [if_neg hmark.1, if_neg hmark.2, if_pos header]
      exact bind_eq_ok.mpr ⟨_, read, rfl⟩
    | decorated property properties read =>
      obtain ⟨c, hc, hcs⟩ := Layout.at?_of_atProperty property
      have hmark := noMark hc (by rcases hcs with rfl | rfl <;> decide)
      have hheader : ¬(s.at? '|' || s.at? '>') = true := by
        rcases hcs with rfl | rfl <;> simp [Layout.at?_eq hc]
      rw [if_neg hmark.1, if_neg hmark.2, if_neg hheader, if_pos property]
      exact bind_eq_ok.mpr ⟨_, properties, read⟩
    | keyed keyRead colon opens read =>
      obtain ⟨hdash, hquestion, hcolon, hbar, hfold, -⟩ := flowContent_no_mark keyRead
      rw [if_neg (by simp [hdash]), if_neg (by simp [hquestion, hcolon]), if_neg (by simp [hbar, hfold]),
        if_neg (by simp [flowContent_no_property keyRead])]
      refine bind_eq_ok.mpr ⟨_, keyRead, ?_⟩
      dsimp only
      rw [if_pos (Bool.and_eq_true_iff.mpr ⟨colon, opens⟩)]
      exact bind_eq_ok.mpr ⟨_, read, rfl⟩
    | content read noKey alone =>
      obtain ⟨hdash, hquestion, hcolon, hbar, hfold, -⟩ := flowContent_no_mark read
      rw [if_neg (by simp [hdash]), if_neg (by simp [hquestion, hcolon]), if_neg (by simp [hbar, hfold]),
        if_neg (by simp [flowContent_no_property read])]
      refine bind_eq_ok.mpr ⟨_, read, ?_⟩
      dsimp only
      rw [if_neg (by simp [noKey]), if_neg (by simp [alone])]
      rfl

/-- What stands at an entry, key or value: a node, or a sequence in the column of its key, or nothing but the
properties before it, because the collection ends, or the row begins no node, or it belongs to a collection
further out. -/
inductive BlockValue (rules : Rules) (i : Indent) (compact level : Bool) (p : Properties) (s : Layout) :
    List Tree → Layout → Prop where
  | closed (closes : s.closes i = true) : BlockValue rules i compact level p s p.bare s
  | node {ts : List Tree} {u : Layout} (goesOn : s.closes i = false) (reach : s.within i = true)
      (read : nodeHere rules i compact level p s = .ok (ts, u)) : BlockValue rules i compact level p s ts u
  | unread {f : Fault} (goesOn : s.closes i = false) (reach : s.within i = true)
      (fault : nodeHere rules i compact level p s = .error f) (here : (s.fresh && f.stop == s.stop) = true) :
      BlockValue rules i compact level p s p.bare s
  | level {content : Tree} {u : Layout} (goesOn : s.closes i = false) (outside : s.within i = false)
      (dash : (level && s.isLevel i && s.atMark '-') = true) (read : sequence rules i.level s = .ok (content, u)) :
      BlockValue rules i compact level p s (p.wrap .blockNode s.comments content) u
  | outside (goesOn : s.closes i = false) (outside : s.within i = false)
      (noDash : (level && s.isLevel i && s.atMark '-') = false) : BlockValue rules i compact level p s p.bare s

theorem blockValue_eq_ok (hf : Tree.hasFaultList ts = false) :
    blockValue rules i compact level p s = .ok (ts, u) ↔ BlockValue rules i compact level p s ts u := by
  unfold blockValue
  constructor
  · intro h
    split at h
    · cases h
      exact .closed ‹_›
    rename_i hopen
    have hopen := eq_false_of_ne_true hopen
    split at h
    · split at h
      · split at h
        · cases h
          exact .unread hopen ‹_› ‹_› ‹_›
        · simp only [bind_eq_ok, pure_eq_ok, Prod.exists, Prod.mk.injEq] at h
          obtain ⟨skipped, t, hskip, rest, v, -, rfl, -⟩ := h
          simp [Layout.skip_hasFault hskip] at hf
      · exact .node hopen ‹_› h
    rename_i houtside
    have houtside := eq_false_of_ne_true houtside
    split at h
    · simp only [bind_eq_ok, pure_eq_ok, Prod.exists, Prod.mk.injEq] at h
      obtain ⟨content, v, hread, rfl, rfl⟩ := h
      exact .level hopen houtside ‹_› hread
    · cases h
      exact .outside hopen houtside (eq_false_of_ne_true ‹_›)
  · intro h
    cases h with
    | closed closes =>
      rw [if_pos closes]
      rfl
    | node goesOn reach read => rw [if_neg (by simp [goesOn]), if_pos reach, read]
    | unread goesOn reach fault here =>
      rw [if_neg (by simp [goesOn]), if_pos reach, fault]
      dsimp only
      rw [if_pos here]
      rfl
    | level goesOn outside dash read =>
      rw [if_neg (by simp [goesOn]), if_neg (by simp [outside]), if_pos dash]
      exact bind_eq_ok.mpr ⟨_, read, rfl⟩
    | outside goesOn outside noDash =>
      rw [if_neg (by simp [goesOn]), if_neg (by simp [outside]), if_neg (by simp [noDash])]
      rfl

end YamlOutline.Syntax
