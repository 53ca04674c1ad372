import YamlOutline.Proofs.Reparse.Entries

/-! Nodes inside brackets under more indentation. A node whose rows hang, each indented as far as is
asked for, is read in the same way whether or not that is asked for. -/

namespace YamlOutline.Syntax
variable {floor : Nat} {i j : Indent} {s t u : Layout} {ts : List Tree} {rules : Rules} {content : Tree}

/-! ### Rows that hang -/

/-- Whether a row that has begun with `leading` blanks is indented to `floor`. An empty row need not
be, and the last bracket of the text may stand one column before. -/
def rowHangs (floor : Nat) : (leading : Nat) → List Char → Bool
  | _, [] => true
  | leading, c :: r =>
    if isBreak c then true
    else if c == ' ' then rowHangs floor (leading + 1) r
    else floor ≤ leading || leading + 1 == floor && (c == ']' || c == '\x7d') && r.isEmpty

/-- Whether every row that begins inside the text is indented to `floor`. -/
def hangs (floor : Nat) : List Char → Bool
  | [] => true
  | c :: r => (!isBreak c || rowHangs floor 0 r) && hangs floor r

private theorem hangs_cons {c : Char} {r : List Char} (h : hangs floor (c :: r) = true) :
    (isBreak c = true → rowHangs floor 0 r = true) ∧ hangs floor r = true := by
  rw [hangs, Bool.and_eq_true] at h
  refine ⟨fun hc => ?_, h.2⟩
  simpa [hc] using h.1

theorem hangs_drop {cs : List Char} (h : hangs floor cs = true) (n : Nat) : hangs floor (cs.drop n) = true := by
  induction n generalizing cs with
  | zero => exact h
  | succ n ih =>
    cases cs with
    | nil => rfl
    | cons c r => exact ih (hangs_cons h).2

/-- The row is indented to `floor`, or it is blank so far and hangs. -/
def RowHangs (floor leading : Nat) (cs : List Char) : Prop :=
  floor ≤ leading ∨ rowHangs floor leading cs = true

/-- Where the first character of a row hangs. -/
private theorem RowHangs.first {leading : Nat} {c : Char} {r : List Char}
    (h : RowHangs floor leading (c :: r))
    (hbreak : isBreak c = false) (hc : c ≠ ' ') :
    floor ≤ leading ∨ leading + 1 = floor ∧ (c = ']' ∨ c = '\x7d') ∧ r = [] := by
  refine h.elim .inl fun h => ?_
  simpa [rowHangs, hbreak, hc, and_assoc] using h

private theorem RowHangs.space {leading : Nat} {r : List Char}
    (h : RowHangs floor leading (' ' :: r)) :
    RowHangs floor (leading + 1) r := by
  rcases h with h | h
  · exact .inl (h.trans (Nat.le_succ _))
  · exact .inr (by simpa [rowHangs, isBreak] using h)

private theorem RowHangs.other {leading : Nat} {c : Char} {r : List Char}
    (h : RowHangs floor leading (c :: r))
    (hbreak : isBreak c = false) (hc : c ≠ ' ') (hbracket : c ≠ ']' ∧ c ≠ '\x7d') : floor ≤ leading := by
  rcases h.first hbreak hc with h | ⟨-, rfl | rfl, -⟩
  · exact h
  · exact absurd rfl hbracket.1
  · exact absurd rfl hbracket.2

/-! ### Scalars -/

namespace Quoted
variable {style : Style} {floor' n : Nat} {c : Char} {r cs : List Char} {mode next : Mode} {rowStart first : Bool}

private theorem begin_ne_between (h : begin style c r rowStart = some mode) (fresh : Bool)
    (leading : Nat) (tabbed : Bool) :
    mode ≠ .between fresh leading tabbed := by
  rintro rfl
  unfold begin at h
  repeat' split at h
  all_goals cases h

/-- Where a row has just begun, it is indented to `floor`, or it is blank so far and hangs. -/
def AtHanging (floor : Nat) (mode : Mode) (cs : List Char) : Prop :=
  ∀ leading tabbed, mode = .between true leading tabbed → floor ≤ leading ∨ tabbed = false ∧ RowHangs floor leading cs

private theorem not_bracket_of_ends (h : ends style c r = true) : c ≠ ']' ∧ c ≠ '\x7d' := by
  constructor <;> rintro rfl <;> cases style <;> cases h

/-- What is no bracket at the end of the text may stand here under more indentation. -/
private theorem Opens.of_hangs (h : Opens floor' c rowStart mode first)
    (hrow : AtHanging floor mode (c :: r))
    (hc : (c ≠ ']' ∧ c ≠ '\x7d') ∨ r ≠ []) : Opens floor c rowStart mode first := by
  cases h with
  | run row => exact .run row
  | @between fresh tabbed leading row space tab _ =>
    refine .between row space tab ?_
    cases fresh with
    | false => rfl
    | true =>
      simp only [isIndented, Bool.not_true, Bool.false_or, decide_eq_true_eq]
      obtain hle | ⟨-, hrow⟩ := hrow leading tabbed rfl
      · exact hle
      refine (hrow.first row space).resolve_right ?_
      rintro ⟨-, hbracket, hend⟩
      obtain ⟨hsquare, hcurly⟩ | hr := hc
      · exact hbracket.elim hsquare hcurly
      · exact hr hend

private theorem Step.atHanging (h : Step style floor' c r rowStart mode next first)
    (hrow : AtHanging floor mode (c :: r))
    (hbreak : isBreak c = true → rowHangs floor 0 r = true) : AtHanging floor next r := by
  cases h with
  | fold _ row =>
    rintro _ _ ⟨⟩
    exact .inr ⟨rfl, .inr (hbreak row)⟩
  | simple | digits | doubled => rintro _ _ ⟨⟩
  | digit | taken => split <;> rintro _ _ ⟨⟩
  | @space fresh tabbed leading space =>
    subst space
    rintro leading' tabbed' ⟨⟩
    obtain hle | ⟨rfl, hblank⟩ := hrow leading tabbed rfl
    · left
      split <;> omega
    · exact .inr ⟨rfl, hblank.space⟩
  | @tab fresh tabbed leading tab =>
    subst tab
    rintro leading' tabbed' ⟨⟩
    obtain hle | ⟨-, hrow⟩ := hrow leading tabbed rfl
    · exact .inl hle
    · exact .inl (hrow.other rfl (by decide) (by decide))
  | piece _ _ begins =>
    rintro leading tabbed rfl
    exact absurd rfl (begin_ne_between begins true leading tabbed)

private theorem Run.of_hangs (h : Run style floor' cs mode rowStart n) (hcs : hangs floor cs = true)
    (hrow : AtHanging floor mode cs) : Run style floor cs mode rowStart n := by
  induction h with
  | quote opens ends => exact .quote (opens.of_hangs hrow (.inl (not_bracket_of_ends ends))) ends
  | step step rest ih =>
    obtain ⟨hbreak, hr⟩ := hangs_cons hcs
    have hne := rest.ne_nil
    refine .step (step.imp fun opens more begins => ?_) (ih hr (step.atHanging hrow hbreak))
    exact .piece (opens.of_hangs hrow (.inr hne)) more begins

private theorem length_of_hangs (h : length style floor' cs = .ok n) (hcs : hangs floor cs = true) :
    length style floor cs = .ok n := by
  obtain ⟨m, rfl, hrun⟩ := length_eq_ok.mp h
  exact length_eq_ok.mpr ⟨m, rfl, hrun.of_hangs (hangs_drop hcs 1) nofun⟩

end Quoted

namespace Plain
variable {floor' passed kept : Nat} {c : Char} {r cs : List Char} {s t : At}

/-- A plain scalar in brackets has no bracket, and nothing else may stand before the column. -/
private theorem Step.of_hangs (h : Step true floor' c r s t)
    (hrow : s.folding = true → RowHangs floor s.column (c :: r)) :
    Step true floor c r s t := by
  refine h.imp id fun hfolding text row => ?_
  obtain ⟨hbreak, hwhite⟩ := gap_of_isText text
  have hspace : c ≠ ' ' := by
    rintro rfl
    cases hwhite
  have hbracket : c ≠ ']' ∧ c ≠ '\x7d' := by
    constructor
    · rintro rfl
      simp [isText, isPlain, isFlowIndicator] at text
    · rintro rfl
      simp [isText, isPlain, isFlowIndicator] at text
  have hcolumn := (hrow hfolding).other hbreak hspace hbracket
  simp only [endsRows, Bool.or_eq_false_iff, decide_eq_false_iff_not, Nat.not_lt] at row ⊢
  exact ⟨⟨row.1.1, hcolumn⟩, row.2⟩

private theorem Step.hangs (h : Step true floor' c r s t)
    (hrow : s.folding = true → RowHangs floor s.column (c :: r))
    (hbreak : isBreak c = true → rowHangs floor 0 r = true) : t.folding = true → RowHangs floor t.column r := by
  intro hfolding
  cases h with
  | fold row => exact .inr (hbreak row)
  | blank white =>
    have hrow := hrow hfolding
    obtain rfl | rfl : c = ' ' ∨ c = '\t' := by simpa [isWhite] using white
    · exact hrow.space
    · exact .inl ((hrow.other rfl (by decide) (by decide)).trans (Nat.le_succ _))
  | text => cases hfolding

/-- Outside a row's blanks a plain scalar in brackets goes on in the same way. -/
private theorem At.reach_of_hangs (hle : floor' ≤ floor) (hcs : hangs floor cs = true)
    (hrow : s.folding = true → RowHangs floor s.column cs) :
    s.reach true floor cs passed kept = s.reach true floor' cs passed kept := by
  induction cs generalizing s passed kept with
  | nil => rfl
  | cons c r ih =>
    obtain ⟨hbreak, hr⟩ := hangs_cons hcs
    by_cases hstep : ∃ t, Step true floor' c r s t
    · obtain ⟨t, hstep⟩ := hstep
      rw [reach_of_step hstep, reach_of_step (hstep.of_hangs hrow)]
      exact ih hr (hstep.hangs hrow hbreak)
    · rw [reach_of_stop (not_exists.mp hstep), reach_of_stop fun t ht => hstep ⟨t, ht.of_floor_le hle⟩]

private theorem length_of_hangs (hle : floor' ≤ floor) (hcs : hangs floor cs = true)
    (column : Nat) :
    length true floor column cs = length true floor' column cs :=
  At.reach_of_hangs (s := ⟨false, true, column + 1⟩) hle (hangs_drop hcs 1) nofun

end Plain

/-! ### States before rows that hang -/

/-- The rows behind the next token hang, and so does its own row if it is the first one there. -/
structure Layout.Hangs (floor : Nat) (s : Layout) : Prop where
  rest : hangs floor s.rest = true
  row : s.fresh = true → s.rest ≠ [] → floor ≤ s.leading ∨
    s.leading + 1 = floor ∧ s.tabbed = false ∧ s.atClosing = true

namespace Layout.Passage
variable {s t : Passage} {u : Layout} {c : Char} {r : List Char}

/-- The rows behind a place between two tokens hang, and so does its own row if no token has begun it. -/
structure Hangs (floor : Nat) (s : Passage) : Prop where
  rest : hangs floor s.cursor.rest = true
  row : s.fresh = true → floor ≤ s.leading ∨
    s.tabbed = false ∧ s.open? = none ∧ RowHangs floor s.leading s.cursor.rest

private theorem Hangs.other (h : s.Hangs floor) (hr : s.cursor.rest = c :: r)
    (hfresh : s.fresh = true)
    (hbreak : isBreak c = false) (hspace : c ≠ ' ') (hbracket : c ≠ ']' ∧ c ≠ '\x7d') : floor ≤ s.leading := by
  obtain hle | ⟨-, -, hrow⟩ := h.row hfresh
  · exact hle
  · rw [hr] at hrow
    exact hrow.other hbreak hspace hbracket

private theorem Step.hangs (step : Step c s t) (hr : s.cursor.rest = c :: r) (h : s.Hangs floor) :
    t.Hangs floor := by
  have hrest := h.rest
  rw [hr] at hrest
  obtain ⟨hbreak, hrest⟩ := hangs_cons hrest
  refine ⟨(step.rest hr).symm ▸ hrest, fun hfresh => ?_⟩
  rw [step.rest hr]
  cases step with
  | fold row => exact .inr ⟨rfl, rfl, .inr (hbreak row)⟩
  | inside _ _ opened =>
    refine (h.row hfresh).imp_right fun h => ?_
    rw [h.2.1] at opened
    cases opened
  | space space closed =>
    subst space
    obtain hle | ⟨htab, -, hrow⟩ := h.row hfresh
    · left
      dsimp only
      split <;> omega
    · rw [hr] at hrow
      refine .inr ⟨htab, closed, ?_⟩
      dsimp only
      rw [htab]
      exact hrow.space
  | tab tab =>
    subst tab
    exact .inl (h.other hr hfresh rfl (by decide) (by decide))
  | hash hash =>
    subst hash
    exact .inl (h.other hr hfresh rfl (by decide) (by decide))

private theorem Halts.hangs (halts : s.Halts) (h : s.Hangs floor) : s.out.Hangs floor := by
  refine ⟨h.rest, fun hfresh hne => ?_⟩
  have first {c : Char} {r : List Char} (hr : s.cursor.rest = c :: r) (hbreak : isBreak c = false) (hspace : c ≠ ' ') :
      floor ≤ s.leading ∨ s.leading + 1 = floor ∧ s.tabbed = false ∧ s.out.atClosing = true := by
    obtain hle | ⟨htab, -, hrow⟩ := h.row hfresh
    · exact .inl hle
    rw [hr] at hrow
    refine (hrow.first hbreak hspace).imp_right ?_
    rintro ⟨hleading, hbracket, -⟩
    exact ⟨hleading, htab, by rcases hbracket with rfl | rfl <;> simp [out, atClosing, at?, Layout.rest, hr]⟩
  cases halts with
  | done rest => exact absurd rest hne
  | null rest null =>
    obtain ⟨hbreak, hwhite⟩ := row_of_isNull null
    exact first rest hbreak fun hc => by rw [hc] at hwhite; cases hwhite
  | token rest opens _ =>
    simp only [Passage.opens, Bool.and_eq_true, Bool.not_eq_true'] at opens
    exact first rest opens.1.1.1 fun hc => by rw [hc] at opens; cases opens.1.2

private theorem Passes.hangs (h : Passes s u) (hs : s.Hangs floor) : u.Hangs floor := by
  induction h with
  | halt halts => exact halts.hangs hs
  | step rest step _ ih => exact ih (step.hangs rest hs)

end Layout.Passage

namespace Layout.Hangs

private theorem after {p : Cursor} (h : hangs floor p.rest = true) :
    (Layout.after p).Hangs floor := by
  obtain ⟨u, hu, he⟩ := after_passes p
  have hangs := hu.hangs ⟨h, nofun⟩
  rw [he]
  exact ⟨hangs.rest, hangs.row⟩

private theorem token (h : s.Hangs floor) (k : Kind) (n : Nat) : (s.token k n).2.Hangs floor :=
  .after (by rw [Cursor.rest_drop]; exact hangs_drop h.rest n)

private theorem settle (h : s.Hangs floor) : s.settle.Hangs floor :=
  ⟨h.rest, h.row⟩

/-- All but a closing bracket is within reach. -/
private theorem within (h : s.Hangs floor) (hi : i.floor ≤ floor) (hne : s.rest ≠ [])
    (hopen : s.atClosing = false) :
    s.within i = true := by
  rw [Layout.within, Bool.or_eq_true, decide_eq_true_eq]
  cases hfresh : s.fresh with
  | false => exact .inl rfl
  | true =>
    rcases h.row hfresh hne with hle | ⟨-, -, hclosing⟩
    · exact .inr (hi.trans hle)
    · rw [hopen] at hclosing
      cases hclosing

end Layout.Hangs

/-! ### Rules -/

/-- The rules read what hangs in the same way under more indentation. -/
structure Rules.Deepens (rules : Rules) : Prop where
  entries : ∀ {floor isMapping i j s ts u}, i.floor ≤ floor → j.floor = floor → s.Hangs floor →
    rules.entries isMapping i s = .ok (ts, u) → Tree.hasFaultList ts = false →
    rules.entries isMapping j s = .ok (ts, u) ∧ u.Hangs floor

private theorem Properties.read_hangs {p q : Properties} (hs : s.Hangs floor)
    (h : p.read s = .ok (q, t)) :
    t.Hangs floor := by
  obtain ⟨-, ts, hprop, -⟩ := read_eq_ok.mp h
  obtain ⟨k, n, -, -, htoken⟩ := Layout.property_eq_ok hprop
  rw [(Prod.mk.inj htoken).2]
  exact hs.token k n

private theorem Layout.atClosing_eq_false {c : Char} (h : s.at? c = true)
    (hc : c ≠ ']' ∧ c ≠ '\x7d') :
    s.atClosing = false := by
  rw [atClosing, at?_unique h hc.1, at?_unique h hc.2]
  rfl

/-- No node in flow style begins with a closing bracket. -/
private theorem flowContent_open {inFlow : Bool} {x : Tree × Layout}
    (h : flowContent rules inFlow i s = .ok x) :
    s.atClosing = false ∧ s.rest ≠ [] := by
  rcases flowContent_begin h with ⟨c, hc, hat⟩ | hplain
  · refine ⟨Layout.atClosing_eq_false hat ?_, Layout.rest_ne_nil_of_at? hat⟩
    simp only [List.mem_cons, List.not_mem_nil, or_false] at hc
    rcases hc with rfl | rfl | rfl | rfl | rfl <;> decide
  · cases hs : s.rest with
    | nil =>
      rw [hs] at hplain
      cases hplain
    | cons c r =>
      rw [hs] at hplain
      have hne : c ≠ ']' ∧ c ≠ '\x7d' := by constructor <;> rintro rfl <;> cases hplain
      exact ⟨by simp [Layout.atClosing, Layout.at?, hs, hne], List.cons_ne_nil c r⟩

section
variable {isMapping : Bool} (hrules : rules.Deepens) (hi : i.floor ≤ floor) (hj : j.floor = floor)
include hrules hi hj

theorem collection_of_hangs (hs : s.Hangs floor) (h : collection rules isMapping i s = .ok (content, u))
    (hf : content.hasFault = false) :
    collection rules isMapping j s = .ok (content, u) ∧ u.Hangs floor := by
  obtain ⟨rest, hentries, rfl⟩ := collection_eq_ok.mp h
  simp only [Tree.hasFault_node, Tree.hasFaultList_append, Bool.or_eq_false_iff] at hf
  obtain ⟨hentries, hu⟩ := hrules.entries hi hj (hs.settle.token .mark 1) hentries hf.2.2
  exact ⟨collection_eq_ok.mpr ⟨rest, hentries, rfl⟩, hu⟩

omit hrules hi in
theorem quoted_of_hangs {style : Quoted.Style} (hs : s.Hangs floor) (h : quoted style i s = .ok (content, u)) :
    quoted style j s = .ok (content, u) ∧ u.Hangs floor := by
  obtain ⟨n, hn, rfl, rfl⟩ := quoted_eq_ok.mp h
  have hn := Quoted.length_of_hangs hn hs.rest
  exact ⟨quoted_eq_ok.mpr ⟨n, hj ▸ hn, rfl, rfl⟩, .after (by rw [Cursor.rest_drop]; exact hangs_drop hs.rest n)⟩

private theorem flowContent_of_hangs (hs : s.Hangs floor)
    (h : flowContent rules true i s = .ok (content, u))
    (hf : content.hasFault = false) :
    flowContent rules true j s = .ok (content, u) ∧ u.Hangs floor := by
  have hafter (n : Nat) : (Layout.after (s.cursor.drop n)).Hangs floor :=
    .after (by rw [Cursor.rest_drop]; exact hangs_drop hs.rest n)
  rw [flowContent_eq_ok]
  cases flowContent_eq_ok.mp h with
  | collection isMapping bracket read =>
    obtain ⟨read, hu⟩ := collection_of_hangs hrules hi hj hs read hf
    exact ⟨.collection isMapping bracket read, hu⟩
  | quoted style quote read =>
    obtain ⟨read, hu⟩ := quoted_of_hangs hj hs read
    exact ⟨.quoted style quote read, hu⟩
  | reference star name => exact ⟨.reference star name, hafter _⟩
  | plain begins length =>
    have hlength : Plain.length true j.floor s.column s.rest = Plain.length true i.floor s.column s.rest :=
      Plain.length_of_hangs (hj ▸ hi) (hj ▸ hs.rest) s.column
    exact ⟨.plain begins (hlength.trans length), hafter _⟩

omit hrules hi hj in
private theorem Properties.Group.hangs {p : Properties} {goesOn goesOn' : Layout → Bool}
    (hs : s.Hangs floor)
    (hfit : ∀ {t : Layout}, t.Hangs floor → (t.atProperty && goesOn t) = (t.atProperty && goesOn' t))
    (h : Group goesOn s p t) : Group goesOn' s p t ∧ t.Hangs floor := by
  cases h with
  | one read ends =>
    have ht := read_hangs hs read
    exact ⟨.one read (hfit ht ▸ ends), ht⟩
  | two first more second =>
    have ht := read_hangs hs first
    exact ⟨.two first (hfit ht ▸ more) second, read_hangs ht second⟩

omit hrules in
private theorem flowProperties_of_hangs {p : Properties} (hs : s.Hangs floor)
    (h : flowNode.properties i s = .ok (p, t)) :
    flowNode.properties j s = .ok (p, t) ∧ t.Hangs floor := by
  have hfit {t : Layout} (ht : t.Hangs floor) : (t.atProperty && t.within i) = (t.atProperty && t.within j) := by
    cases hat : t.atProperty with
    | false => rfl
    | true =>
      have hne := Layout.rest_ne_nil_of_atProperty hat
      have hopen : t.atClosing = false := by
        rcases (Bool.or_eq_true _ _).mp hat with h | h <;> exact Layout.atClosing_eq_false h (by decide)
      rw [ht.within hi hne hopen, ht.within hj.le hne hopen]
  rw [flowProperties_eq_ok]
  cases flowProperties_eq_ok.mp h with
  | none unfit => exact ⟨.none (hfit hs ▸ unfit), hs⟩
  | some fit read =>
    obtain ⟨read, ht⟩ := read.hangs hs hfit
    exact ⟨.some (hfit hs ▸ fit) read, ht⟩

private theorem flowNode_of_hangs {endsItself : Bool} (hs : s.Hangs floor)
    (h : flowNode rules i s = .ok (ts, endsItself, u)) (hf : Tree.hasFaultList ts = false) :
    flowNode rules j s = .ok (ts, endsItself, u) ∧ u.Hangs floor := by
  rw [flowNode_eq_ok]
  cases flowNode_eq_ok.mp h with
  | bare properties some ends =>
    obtain ⟨properties, hu⟩ := flowProperties_of_hangs hi hj hs properties
    exact ⟨.bare properties some ends, hu⟩
  | wrapped properties reach read alone =>
    obtain ⟨properties, ht⟩ := flowProperties_of_hangs hi hj hs properties
    obtain ⟨hopen, hne⟩ := flowContent_open read
    obtain ⟨read, hu⟩ := flowContent_of_hangs hrules hi hj ht read (Properties.hasFault_of_wrap hf)
    exact ⟨.wrapped properties (ht.within hj.le hne hopen) read alone, hu⟩

private theorem flowValue_of_hangs (hs : s.Hangs floor)
    (h : flowValue rules isMapping i s = .ok (ts, u))
    (hf : Tree.hasFaultList ts = false) :
    flowValue rules isMapping j s = .ok (ts, u) ∧ u.Hangs floor := by
  have ht := hs.token .valueMark 1
  rw [flowValue_eq_ok hf]
  cases (flowValue_eq_ok hf).mp h with
  | none ends => exact ⟨.none ends, ht⟩
  | node read =>
    rw [Tree.hasFaultList_append, Bool.or_eq_false_iff] at hf
    obtain ⟨read, hu⟩ := flowNode_of_hangs hrules hi hj ht read hf.2
    exact ⟨.node read, hu⟩

omit hrules in
private theorem within_of_colon (hs : s.Hangs floor) (hat : s.at? ':' = true) :
    s.within i = true ∧ s.within j = true := by
  have hne := Layout.rest_ne_nil_of_at? hat
  have hopen := Layout.atClosing_eq_false hat (by decide)
  exact ⟨hs.within hi hne hopen, hs.within hj.le hne hopen⟩

private theorem flowEntry_of_hangs {anyRow mustPair isPair : Bool} (hs : s.Hangs floor)
    (h : flowEntry rules isMapping anyRow mustPair i s = .ok (ts, isPair, u)) (hf : Tree.hasFaultList ts = false) :
    flowEntry rules isMapping anyRow mustPair j s = .ok (ts, isPair, u) ∧ u.Hangs floor := by
  have hreach {t : Layout} (endsItself : Bool) (ht : t.Hangs floor)
      (hcolon : (if endsItself then t.at? ':' else t.atFlowColon) = true) : t.within i = t.within j := by
    have hat : t.at? ':' = true := by
      cases endsItself
      · exact Layout.at?_of_atFlowColon hcolon
      · exact hcolon
    obtain ⟨hwithin, hwithin'⟩ := within_of_colon hi hj ht hat
    rw [hwithin, hwithin']
  rw [flowEntry_eq_ok]
  cases flowEntry_eq_ok.mp h with
  | keyless colon read =>
    obtain ⟨read, hu⟩ := flowValue_of_hangs hrules hi hj hs read hf
    have hat := (Bool.and_eq_true_iff.mp (Bool.and_eq_true_iff.mp colon).1).1
    exact ⟨.keyless (hreach false hs hat ▸ colon) read, hu⟩
  | pair node colon reach read =>
    rw [Tree.hasFaultList_append, Bool.or_eq_false_iff] at hf
    obtain ⟨node, ht⟩ := flowNode_of_hangs hrules hi hj hs node hf.1
    obtain ⟨read, hu⟩ := flowValue_of_hangs hrules hi hj ht read hf.2
    exact ⟨.pair node colon (hreach _ ht colon ▸ reach) read, hu⟩
  | @node _ endsItself _ read noColon mayStand =>
    obtain ⟨read, hu⟩ := flowNode_of_hangs hrules hi hj hs read hf
    refine ⟨.node read ?_ mayStand, hu⟩
    cases hcolon : if endsItself then u.at? ':' else u.atFlowColon with
    | false => rfl
    | true => rwa [hcolon, hreach endsItself hu hcolon] at noColon

private theorem flowItem_of_hangs (hs : s.Hangs floor)
    (h : flowItem rules isMapping i s = .ok (ts, u))
    (hf : Tree.hasFaultList ts = false) :
    flowItem rules isMapping j s = .ok (ts, u) ∧ u.Hangs floor := by
  have hquestion : (s.settle.atMark '?' && s.settle.within j) = (s.settle.atMark '?' && s.settle.within i) := by
    cases hat : s.settle.atMark '?' with
    | false => rfl
    | true =>
      have hne := Layout.rest_ne_nil_of_atMark hat
      have hopen := Layout.atClosing_eq_false (Layout.at?_eq_of_atMark hat) (by decide)
      rw [hs.settle.within hi hne hopen, hs.settle.within hj.le hne hopen]
  have ht := hs.settle.token .mark 1
  obtain ⟨us, rfl, hitem⟩ := flowItem_eq_ok.mp h
  rw [Tree.hasFaultList_append, Bool.or_eq_false_iff] at hf
  cases hitem with
  | mark question ends => exact ⟨flowItem_eq_ok.mpr ⟨_, rfl, .mark (hquestion.trans question) ends⟩, ht⟩
  | marked question read =>
    simp only [Tree.hasFaultList_cons, Tree.hasFault_node, Tree.hasFaultList_append, Bool.or_eq_false_iff] at hf
    obtain ⟨read, hu⟩ := flowEntry_of_hangs hrules hi hj ht read hf.2.1.2.2
    exact ⟨flowItem_eq_ok.mpr ⟨_, rfl, .marked (hquestion.trans question) read⟩, hu⟩
  | @entry parts isPair _ noQuestion read =>
    have hparts : Tree.hasFaultList parts = false := by
      cases isPair
      · exact hf.2
      · simpa [Tree.isFault, Tree.kind] using hf.2
    obtain ⟨read, hu⟩ := flowEntry_of_hangs hrules hi hj hs.settle read hparts
    exact ⟨flowItem_eq_ok.mpr ⟨_, rfl, .entry (hquestion.trans noQuestion) read⟩, hu⟩

omit hrules in
private theorem flowClosing_of_hangs (hs : s.Hangs floor) :
    flowClosing isMapping i s = flowClosing isMapping j s := by
  cases hat : s.at? (if isMapping then '\x7d' else ']') with
  | false => simp [flowClosing, hat]
  | true =>
    have reached {i : Indent} (hi : i.floor ≤ floor) : (s.within i || s.isLevel i) = true := by
      rw [Layout.within, Layout.isLevel]
      cases hfresh : s.fresh with
      | false => rfl
      | true =>
        rcases hs.row hfresh (Layout.rest_ne_nil_of_at? hat) with hle | ⟨hleading, htab, -⟩
        · simp [hi.trans hle]
        · rcases Nat.lt_or_ge s.leading i.floor with hlt | hge
          · simp [htab, show s.leading + 1 = i.floor by omega]
          · simp [hge]
    rw [flowClosing, flowClosing, reached hi, reached hj.le]

private theorem flowEntries_of_hangs (hs : s.Hangs floor)
    (h : flowEntries rules isMapping i s = .ok (ts, u))
    (hf : Tree.hasFaultList ts = false) :
    flowEntries rules isMapping j s = .ok (ts, u) ∧ u.Hangs floor := by
  have close {s : Layout} {ts : List Tree} (hs : s.Hangs floor) (h : flowClosing isMapping i s = some (ts, u)) :
      u.Hangs floor := by
    obtain ⟨-, -, h⟩ := flowClosing_eq_some.mp h
    cases h
    exact hs.token .mark 1
  rw [flowEntries_eq_ok hf]
  cases (flowEntries_eq_ok hf).mp h with
  | closed closing => exact ⟨.closed (flowClosing_of_hangs hi hj hs ▸ closing), close hs closing⟩
  | comma isOpen read comma more =>
    simp only [Tree.hasFaultList_append, Bool.or_eq_false_iff] at hf
    obtain ⟨read, ht⟩ := flowItem_of_hangs hrules hi hj hs read hf.1.1
    obtain ⟨more, hu⟩ := hrules.entries hi hj (ht.token .mark 1) more hf.2
    obtain ⟨hat, -⟩ := Bool.and_eq_true_iff.mp comma
    have hopen := Layout.atClosing_eq_false hat (by decide)
    have hwithin := ht.within hj.le (Layout.rest_ne_nil_of_at? hat) hopen
    exact ⟨.comma (flowClosing_of_hangs hi hj hs ▸ isOpen) read (by rw [hat, hwithin]; rfl) more, hu⟩
  | last isOpen read closing =>
    rw [Tree.hasFaultList_append, Bool.or_eq_false_iff] at hf
    obtain ⟨read, ht⟩ := flowItem_of_hangs hrules hi hj hs read hf.1
    have isOpen' := flowClosing_of_hangs hi hj hs ▸ isOpen
    exact ⟨.last isOpen' read (flowClosing_of_hangs hi hj ht ▸ closing), close ht closing⟩

end

theorem ofDepth_deepens : ∀ n, (Rules.ofDepth n).Deepens
  | 0 => ⟨nofun⟩
  | n + 1 => ⟨flowEntries_of_hangs (ofDepth_deepens n)⟩

end YamlOutline.Syntax
