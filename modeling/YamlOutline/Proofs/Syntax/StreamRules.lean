import YamlOutline.Proofs.Syntax.BlockRules

/-! Documents and streams: the tree of a text without fault has its leaves in the order of the
source, and every node in it has content. -/

namespace YamlOutline.Syntax
variable {cs : List Char} {s t u : Layout} {before ts us : List Tree} {i : Indent} {rules : Rules}

private theorem rest_ne_nil_of_marker {c : Char} (h : marker s c = true) : s.rest ≠ [] := by
  intro hn
  simp [marker, hn, isMarker] at h

theorem Layout.token?_adds {n? : Option Nat} (hs : s.Sound cs)
    (h : s.token? .mark n? = .ok (ts, t)) : Adds cs s [] ts t := by
  unfold token? at h
  split at h <;> cases h
  exact mark_adds hs _

/-! ### What the rules have read -/

/-- The end of a document: three dots, or the marker of the next one or the end of the text. -/
inductive Finish (rules : Rules) (parts : List Tree) (s : Layout) : List Tree → Layout → Prop where
  | dots {rest : List Tree} {u : Layout} (dots : marker s '.' = true)
      (more : rules.documents true (s.token .mark 3).2 = .ok (rest, u)) :
      Finish rules parts s (.node .document (parts ++ (s.token .mark 3).1) :: rest) u
  | ends {rest : List Tree} {u : Layout} (noDots : marker s '.' = false) (ends : (marker s '-' || s.atEnd) = true)
      (more : rules.documents false s = .ok (rest, u)) : Finish rules parts s (.node .document parts :: rest) u

theorem finish_eq_ok : finish rules us s = .ok (ts, u) ↔ Finish rules us s ts u := by
  simp only [finish]
  constructor
  · intro h
    split at h
    · simp only [bind_eq_ok, pure_eq_ok, Prod.exists, Prod.mk.injEq] at h
      obtain ⟨rest, v, hrest, rfl, rfl⟩ := h
      exact .dots ‹_› hrest
    rename_i hdots
    split at h
    · simp only [bind_eq_ok, pure_eq_ok, Prod.exists, Prod.mk.injEq] at h
      obtain ⟨rest, v, hrest, rfl, rfl⟩ := h
      exact .ends (eq_false_of_ne_true hdots) ‹_› hrest
    · cases h
  · rintro (⟨hdots, hrest⟩ | ⟨hdots, hends, hrest⟩)
    · rw [if_pos hdots]
      exact bind_eq_ok.mpr ⟨_, hrest, rfl⟩
    · rw [if_neg (by simp [hdots]), if_pos hends]
      exact bind_eq_ok.mpr ⟨_, hrest, rfl⟩

theorem finish_hasFault (h : finish rules us t = .ok (ts, u)) (hf : Tree.hasFaultList ts = false) :
    Tree.hasFaultList us = false := by
  cases finish_eq_ok.mp h with
  | dots =>
    simp only [Tree.hasFaultList_cons, Tree.hasFault_node, Tree.hasFaultList_append, Bool.or_eq_false_iff] at hf
    exact hf.1.2.1
  | ends =>
    simp only [Tree.hasFaultList_cons, Tree.hasFault_node, Bool.or_eq_false_iff] at hf
    exact hf.1.2

/-- Whatever follows the node of a document, the document is finished behind it. -/
private theorem exists_finish (h : documentFrom rules us s = .ok (ts, t)) :
    ∃ parts v, finish rules (us ++ parts) v = .ok (ts, t) := by
  simp only [documentFrom, bind_eq_ok, Prod.exists] at h
  obtain ⟨body, v, -, h⟩ := h
  split at h
  · exact ⟨body ++ [], v, by rwa [← List.append_assoc]⟩
  · simp only [bind_eq_ok, Prod.exists] at h
    obtain ⟨behind, w, -, h⟩ := h
    exact ⟨body ++ behind, w, by rwa [← List.append_assoc]⟩

theorem documentFrom_hasFault (h : documentFrom rules us t = .ok (ts, u)) (hf : Tree.hasFaultList ts = false) :
    Tree.hasFaultList us = false := by
  obtain ⟨parts, v, h⟩ := exists_finish h
  have hparts := finish_hasFault h hf
  rw [Tree.hasFaultList_append, Bool.or_eq_false_iff] at hparts
  exact hparts.1

/-- A document without fault has nothing behind its node. -/
theorem documentFrom_eq_ok (hf : Tree.hasFaultList ts = false) : documentFrom rules us s = .ok (ts, u) ↔
    ∃ body v, rules.value .top false false {} s = .ok (body, v) ∧ (v.atEnd || v.atDocument) = true ∧
      finish rules (us ++ body) v = .ok (ts, u) := by
  simp only [documentFrom, bind_eq_ok, Prod.exists]
  constructor
  · rintro ⟨body, v, hbody, h⟩
    split at h
    · have h : finish rules (us ++ body ++ []) v = .ok (ts, u) := h
      exact ⟨body, v, hbody, ‹_›, by rwa [List.append_nil] at h⟩
    · simp only [bind_eq_ok, Prod.exists] at h
      obtain ⟨behind, w, hbehind, h⟩ := h
      have hparts := finish_hasFault h hf
      rw [Tree.hasFaultList_append, Bool.or_eq_false_iff] at hparts
      exact absurd (Layout.orSkip_eq_ok hbehind hparts.2) (fault_ne_ok _ _)
  · rintro ⟨body, v, hbody, hends, h⟩
    refine ⟨body, v, hbody, ?_⟩
    rw [if_pos hends]
    exact bind_eq_ok.mpr ⟨([], v), rfl, by rwa [List.append_nil]⟩

/-- Behind the comments: the end, or a document by its marker, by directives, by the end of an empty one or
by the row in which it begins. -/
inductive StreamDocuments (rules : Rules) (bare : Bool) (s : Layout) : List Tree → Layout → Prop where
  | ended (atEnd : s.atEnd = true) : StreamDocuments rules bare s [] s.settle
  | marked {ts : List Tree} {u : Layout} (goesOn : s.atEnd = false) (dash : marker s '-' = true)
      (read : documentFrom rules (s.settle.token .mark 3).1 (s.settle.token .mark 3).2 = .ok (ts, u)) :
      StreamDocuments rules bare s ts u
  | directed {prologue ts : List Tree} {t u : Layout} (goesOn : s.atEnd = false) (noDash : marker s '-' = false)
      (mayBeBare : bare = true) (percent : (s.at? '%' && s.column == 0) = true)
      (directives : rules.directives s.settle = .ok (prologue, t))
      (read : documentFrom rules prologue t = .ok (ts, u)) : StreamDocuments rules bare s ts u
  | empty {ts : List Tree} {u : Layout} (goesOn : s.atEnd = false) (noDash : marker s '-' = false)
      (mayBeBare : bare = true) (noPercent : (s.at? '%' && s.column == 0) = false) (dots : marker s '.' = true)
      (read : finish rules [] s.settle = .ok (ts, u)) : StreamDocuments rules bare s ts u
  | opened {ts : List Tree} {u : Layout} (goesOn : s.atEnd = false) (noDash : marker s '-' = false)
      (mayBeBare : bare = true) (noPercent : (s.at? '%' && s.column == 0) = false) (noDots : marker s '.' = false)
      (fresh : s.fresh = true) (read : documentFrom rules [] s.settle = .ok (ts, u)) :
      StreamDocuments rules bare s ts u

theorem streamDocuments_eq_ok {bare : Bool} : streamDocuments rules bare s = .ok (ts, u) ↔
    ∃ us, ts = s.comments ++ us ∧ StreamDocuments rules bare s us u := by
  simp only [streamDocuments]
  constructor
  · intro h
    split at h
    · cases h
      exact ⟨[], (List.append_nil _).symm, .ended ‹_›⟩
    rename_i hend
    have hend := eq_false_of_ne_true hend
    split at h
    · simp only [bind_eq_ok, pure_eq_ok, Prod.exists, Prod.mk.injEq] at h
      obtain ⟨us, t, hus, rfl, rfl⟩ := h
      exact ⟨us, rfl, .marked hend ‹_› hus⟩
    rename_i hdash
    have hdash := eq_false_of_ne_true hdash
    split at h
    · cases h
    rename_i hbare
    have hbare : bare = true := by simpa using hbare
    split at h
    · simp only [bind_eq_ok, pure_eq_ok, Prod.exists, Prod.mk.injEq] at h
      obtain ⟨prologue, v, hprologue, us, t, hus, rfl, rfl⟩ := h
      exact ⟨us, rfl, .directed hend hdash hbare ‹_› hprologue hus⟩
    rename_i hpercent
    have hpercent := eq_false_of_ne_true hpercent
    split at h
    · simp only [bind_eq_ok, pure_eq_ok, Prod.exists, Prod.mk.injEq] at h
      obtain ⟨us, t, hus, rfl, rfl⟩ := h
      exact ⟨us, rfl, .empty hend hdash hbare hpercent ‹_› hus⟩
    rename_i hdots
    have hdots := eq_false_of_ne_true hdots
    split at h
    · simp only [bind_eq_ok, pure_eq_ok, Prod.exists, Prod.mk.injEq] at h
      obtain ⟨us, t, hus, rfl, rfl⟩ := h
      exact ⟨us, rfl, .opened hend hdash hbare hpercent hdots ‹_› hus⟩
    · cases h
  · have hmarker (c : Char) : marker s.settle c = marker s c := rfl
    rintro ⟨us, rfl, h⟩
    cases h with
    | ended atEnd =>
      rw [if_pos atEnd, List.append_nil]
      rfl
    | marked goesOn dash read =>
      rw [if_neg (by simp [goesOn]), if_pos dash]
      exact bind_eq_ok.mpr ⟨_, read, rfl⟩
    | directed goesOn noDash mayBeBare percent directives read =>
      rw [if_neg (by simp [goesOn]), if_neg (by simp [noDash]), if_neg (by simp [mayBeBare]), if_pos percent]
      exact bind_eq_ok.mpr ⟨_, directives, bind_eq_ok.mpr ⟨_, read, rfl⟩⟩
    | empty goesOn noDash mayBeBare noPercent dots read =>
      rw [if_neg (by simp [goesOn]), if_neg (by simp [noDash]), if_neg (by simp [mayBeBare]),
        if_neg (by simp [noPercent]), if_pos dots]
      exact bind_eq_ok.mpr ⟨_, read, rfl⟩
    | opened goesOn noDash mayBeBare noPercent noDots fresh read =>
      rw [if_neg (by simp [goesOn]), if_neg (by simp [noDash]), if_neg (by simp [mayBeBare]),
        if_neg (by simp [noPercent]), if_neg (by simp [noDots]), if_pos fresh]
      exact bind_eq_ok.mpr ⟨_, read, rfl⟩

/-- Directives up to the marker behind them. -/
inductive DirectiveLines (rules : Rules) (s : Layout) : List Tree → Layout → Prop where
  | ended (dash : marker s '-' = true) : DirectiveLines rules s (s.token .mark 3).1 (s.token .mark 3).2
  | directive {name parts rest : List Tree} {t v u : Layout}
      (nameRead : s.settle.token? .mark (directiveLength? s.rest) = .ok (name, t))
      (partsRead : directiveLines.parameters (s.rest.takeWhile isVisible) t = .ok (parts, v))
      (more : rules.directives v = .ok (rest, u)) :
      DirectiveLines rules s (s.comments ++ .node .directive (name ++ parts) :: rest) u

theorem directiveLines_cases (h : directiveLines rules s = .ok (ts, u)) : DirectiveLines rules s ts u := by
  unfold directiveLines at h
  split at h
  · cases h
    exact .ended ‹_›
  split at h
  · simp only [bind_eq_ok, Prod.exists] at h
    obtain ⟨name, t, hname, parts, v, hparts, h⟩ := h
    split at h
    · simp only [bind_eq_ok, pure_eq_ok, Prod.exists, Prod.mk.injEq] at h
      obtain ⟨rest, w, hrest, rfl, rfl⟩ := h
      exact .directive hname hparts hrest
    · cases h
  · cases h

/-! ### What the rules add -/

private theorem finish_adds (hrules : rules.Sound cs) (hadds : Adds cs s before us t)
    (hc : HasContent us ∨ marker t '.' = true) (h : finish rules us t = .ok (ts, u))
    (hf : Tree.hasFaultList ts = false) : Adds cs s before ts u := by
  cases finish_eq_ok.mp h with
  | dots dots more =>
    rw [Tree.hasFaultList_cons, Bool.or_eq_false_iff] at hf
    have hdots : HasContent (t.token .mark 3).1 :=
      (Layout.token_begins (rest_ne_nil_of_marker dots) (by simp) (by simp)).hasContent
    have hall := (hadds.append (Layout.mark_adds hadds.sound 3)).node
      (hasContent_append_right hdots) (k := .document) nofun
    exact hall.append (hrules.documents hall.sound more hf.2)
  | ends noDots _ more =>
    rw [Tree.hasFaultList_cons, Bool.or_eq_false_iff] at hf
    have hall := hadds.node (hc.resolve_right (by simp [noDots])) (k := .document) nofun
    exact hall.append (hrules.documents hall.sound more hf.2)

/-- A document that nothing opens begins with something other than a marker. -/
private theorem documentFrom_adds (hrules : rules.Sound cs) (hadds : Adds cs s before us t)
    (hc : HasContent us ∨ t.atEnd = false ∧ marker t '-' = false ∧ marker t '.' = false)
    (h : documentFrom rules us t = .ok (ts, u)) (hf : Tree.hasFaultList ts = false) :
    Adds cs s before ts u := by
  obtain ⟨body, v, hbody, hends, h⟩ := (documentFrom_eq_ok hf).mp h
  have hparts := finish_hasFault h hf
  rw [Tree.hasFaultList_append, Bool.or_eq_false_iff] at hparts
  obtain ⟨hvalue, hvc⟩ := hrules.value hadds.sound Properties.none_sound hbody hparts.2
  refine finish_adds hrules (hadds.append hvalue) (.inl ?_) h hf
  rcases hc with hc | ⟨hend, hdash, hdot⟩
  · exact hasContent_append_left hc
  rcases hvc with hvc | ⟨-, rfl⟩
  · exact hasContent_append_right hvc
  · simp_all [Layout.atDocument, atDocumentMarker, marker]

private theorem directiveName_hasContent
    (h : s.settle.token? .mark (directiveLength? s.rest) = .ok (ts, t)) : HasContent ts := by
  unfold Layout.token? at h
  split at h
  · rename_i n hn
    cases h
    simp only [directiveLength?, Option.ite_none_right_eq_some, Bool.and_eq_true,
      decide_eq_true_eq] at hn
    obtain ⟨⟨hlt, -⟩, hn⟩ := hn
    have hr : s.settle.rest ≠ [] := by
      intro hnil
      have hnil : s.rest = [] := hnil
      simp [hnil] at hlt
    exact (Layout.token_begins hr (by cases hn; omega) (by simp)).hasContent
  · cases h

theorem parameters_add {name : List Char} (hs : s.Sound cs)
    (h : directiveLines.parameters name s = .ok (ts, t)) : Adds cs s [] ts t := by
  unfold directiveLines.parameters at h
  split at h
  · split at h
    · cases h
    · exact Layout.token?_adds hs h
  split at h
  · split at h
    · cases h
    simp only [bind_eq_ok, Prod.exists] at h
    obtain ⟨handle, v, hhandle, h⟩ := h
    split at h
    · cases h
    simp only [bind_eq_ok, pure_eq_ok, Prod.exists, Prod.mk.injEq] at h
    obtain ⟨stem, w, hstem, rfl, rfl⟩ := h
    have hadds := Layout.token?_adds hs hhandle
    exact hadds.append (Layout.token?_adds hadds.sound hstem)
  split at h
  · cases h
    exact .refl hs allGenuine_nil
  · cases h
    exact Layout.mark_adds hs _

private theorem directiveLines_adds (hrules : rules.Sound cs) (hs : s.Sound cs)
    (h : directiveLines rules s = .ok (ts, u)) (hf : Tree.hasFaultList ts = false) :
    Adds cs s [] ts u ∧ HasContent ts := by
  cases directiveLines_cases h with
  | ended dash =>
    exact ⟨Layout.mark_adds hs 3,
      (Layout.token_begins (rest_ne_nil_of_marker dash) (by simp) (by simp)).hasContent⟩
  | @directive name parts rest _ _ _ nameRead partsRead more =>
    simp only [Tree.hasFaultList_append, Tree.hasFaultList_cons, Bool.or_eq_false_iff] at hf
    have hname := Layout.token?_adds hs.settle nameRead
    have hnode := (hname.append (parameters_add hname.sound partsRead)).node
      (hasContent_append_left (directiveName_hasContent nameRead)) (k := .directive) nofun
    obtain ⟨hrest, hrestc⟩ := hrules.directives hnode.sound more hf.2.2
    refine ⟨by simpa using (hnode.afterComments hs allGenuine_nil).append hrest, ?_⟩
    have hafter : HasContent ([.node .directive (name ++ parts)] ++ rest) := hasContent_append_right hrestc
    exact hasContent_append_right hafter

private theorem streamDocuments_adds (hrules : rules.Sound cs) {bare : Bool} (hs : s.Sound cs)
    (h : streamDocuments rules bare s = .ok (ts, u)) (hf : Tree.hasFaultList ts = false) :
    Adds cs s [] ts u := by
  obtain ⟨us, rfl, hus⟩ := streamDocuments_eq_ok.mp h
  rw [Tree.hasFaultList_append, Bool.or_eq_false_iff] at hf
  have hnone : Adds cs s.settle [] [] s.settle := .refl hs.settle allGenuine_nil
  have hadds : Adds cs s.settle [] us u := by
    cases hus with
    | ended => exact hnone
    | marked _ dash read =>
      have hc : HasContent (s.settle.token .mark 3).1 :=
        (Layout.token_begins (s := s.settle) (rest_ne_nil_of_marker dash) (by simp) (by simp)).hasContent
      exact documentFrom_adds hrules (Layout.mark_adds hs.settle 3) (.inl hc) read hf.2
    | directed _ _ _ _ directives read =>
      obtain ⟨hadds, hc⟩ := hrules.directives hs.settle directives (documentFrom_hasFault read hf.2)
      exact documentFrom_adds hrules hadds (.inl hc) read hf.2
    | empty _ _ _ _ dots read => exact finish_adds hrules hnone (.inr dots) read hf.2
    | opened goesOn noDash _ _ noDots _ read =>
      exact documentFrom_adds hrules hnone (.inr ⟨goesOn, noDash, noDots⟩) read hf.2
  simpa using hadds.afterComments hs allGenuine_nil

theorem ofDepth_sound (cs : List Char) : ∀ n, (Rules.ofDepth n).Sound cs
  | 0 => ⟨⟨0, rfl⟩, nofun, nofun, nofun, nofun, nofun, nofun⟩
  | n + 1 =>
    have below := ofDepth_sound cs n
    { level := ⟨n + 1, rfl⟩
      entries := flowEntries_adds below
      value := blockValue_adds below
      items := blockItems_adds below
      pairs := blockPairs_adds below
      documents := streamDocuments_adds below
      directives := directiveLines_adds below }

/-! ### The end of a stream -/

private theorem finish_atEnd (hrules : ∀ {bare s ts t}, rules.documents bare s = .ok (ts, t) →
    t.atEnd = true ∧ t.comments = []) (h : finish rules us s = .ok (ts, t)) :
    t.atEnd = true ∧ t.comments = [] := by
  cases finish_eq_ok.mp h with
  | dots _ more | ends _ _ more => exact hrules more

private theorem streamDocuments_atEnd {bare : Bool} (hrules : ∀ {bare s ts t},
    rules.documents bare s = .ok (ts, t) → t.atEnd = true ∧ t.comments = [])
    (h : streamDocuments rules bare s = .ok (ts, t)) : t.atEnd = true ∧ t.comments = [] := by
  have document {us ts : List Tree} {s : Layout} (h : documentFrom rules us s = .ok (ts, t)) :
      t.atEnd = true ∧ t.comments = [] := by
    obtain ⟨parts, v, h⟩ := exists_finish h
    exact finish_atEnd hrules h
  obtain ⟨us, -, hus⟩ := streamDocuments_eq_ok.mp h
  cases hus with
  | ended atEnd => exact ⟨atEnd, rfl⟩
  | marked _ _ read | directed _ _ _ _ _ read | opened _ _ _ _ _ _ read => exact document read
  | empty _ _ _ _ _ read => exact finish_atEnd hrules read

/-- The documents go on to the end. -/
private theorem documents_atEnd (n : Nat) {bare : Bool}
    (h : (Rules.ofDepth n).documents bare s = .ok (ts, t)) :
    t.atEnd = true ∧ t.comments = [] := by
  induction n generalizing bare s ts t with
  | zero => cases h
  | succ n ih => exact streamDocuments_atEnd ih h

/-- The offset is the end of the text, or a null character stands there: nothing is read behind it. -/
def IsEnd (cs : List Char) (n : Nat) : Prop :=
  n = Text.size cs ∨ ∃ c, isNull c = true ∧ Text.At cs n c

private theorem Layout.Sound.isEnd (hs : s.Sound cs) (h : s.atEnd = true) :
    IsEnd cs s.cursor.offset := by
  obtain ⟨before, hcs, ho⟩ := hs.inText.read
  rw [Layout.atEnd, Layout.rest] at h
  rw [ho]
  cases hr : s.cursor.rest with
  | nil =>
    rw [hr, List.append_nil] at hcs
    exact .inl (by rw [hcs])
  | cons c r =>
    rw [hr] at h hcs
    exact .inr ⟨c, h, before, r, hcs, rfl⟩

/-- In the tree of a text without fault there is a leaf for everything but white space, from its
start to its end. -/
theorem Tree.ofText_covers (h : (Tree.ofText cs).hasFault = false) :
    ∃ start stop, IsEnd cs stop ∧ Ordered cs start stop (Tree.ofText cs).leaves ∧
      Covers cs start stop (Tree.ofText cs).leaves := by
  unfold Tree.ofText at h ⊢
  split at h
  · rename_i ts t hstream
    have hf : Tree.hasFaultList ts = false := by
      simpa [Tree.isFault, Tree.kind] using h
    have hadds := (ofDepth_sound cs _).documents (Layout.ofText_sound cs) hstream hf
    obtain ⟨hend, hcomments⟩ := documents_atEnd _ hstream
    have hpassed := (Layout.ofText_passed cs).2
    have hlaid := hadds.laid _ hpassed.laid
    have hcovers := (hpassed.covers.mono hadds.keptComments).trans hadds.covers
    rw [hcomments, List.append_nil] at hlaid hcovers
    rw [Tree.leaves_node]
    exact ⟨_, t.cursor.offset, hadds.sound.isEnd hend, hlaid, hcovers⟩
  · simp [Tree.upTo, Tree.isFault, Tree.kind] at h

/-- The tree of a text without fault: its leaves stand in the order of the source, and its parts are
what the rules of the grammar made of the text. -/
theorem Tree.ofText_read (h : (Tree.ofText cs).hasFault = false) :
    ∃ ts, Tree.ofText cs = .node .stream ts ∧ AllGenuine cs ts ∧
      Ordered cs 0 (Text.size cs) (Tree.leavesList ts) := by
  unfold Tree.ofText at h ⊢
  split at h
  · rename_i ts t hstream
    have hf : Tree.hasFaultList ts = false := by
      simpa [Tree.isFault, Tree.kind] using h
    have hadds := (ofDepth_sound cs _).documents (Layout.ofText_sound cs) hstream hf
    have hlaid := hadds.laid 0 (Layout.ofText_laid cs)
    rw [Tree.leavesList_append, ordered_append_iff] at hlaid
    obtain ⟨mid, hts, hcomments⟩ := hlaid
    refine ⟨ts, rfl, hadds.genuine, hts.mono (Nat.le_refl 0) ?_⟩
    exact hcomments.le.trans hadds.sound.inText.boundary.le
  · simp [Tree.upTo, Tree.isFault, Tree.kind] at h

end YamlOutline.Syntax
