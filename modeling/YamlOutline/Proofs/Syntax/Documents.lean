import YamlOutline.Proofs.Syntax.StreamRules

/-! What a stream without fault is made of: documents, with at most comments between them. The node
of a document is the only one in it, its content stands at its end, and behind it there are only
comments and the marker that ends the document. -/

namespace YamlOutline.Syntax
variable {cs : List Char} {s t u : Layout} {ts us parts : List Tree} {i j : Indent} {rules : Rules}
  {content : Tree} {p q r : Properties} {compact level : Bool}

/-! ### Content -/

/-- Kinds of trees that are the content of a node. -/
def isBody (k : Kind) : Bool :=
  !Node.isAside k && !Node.isWrapper k && k != .blockSequenceItem

theorem isBody_iff {k : Kind} : isBody k = true ↔
    Node.isAside k = false ∧ Node.isWrapper k = false ∧ k ≠ .blockSequenceItem := by
  simp [isBody, and_assoc]

theorem flowContent_isBody {inFlow : Bool} (h : flowContent rules inFlow i s = .ok (content, u)) :
    isBody content.kind = true := by
  cases flowContent_eq_ok.mp h with
  | collection isMapping _ read =>
    obtain ⟨rest, -, rfl⟩ := collection_eq_ok.mp read
    cases isMapping <;> rfl
  | quoted style _ read =>
    obtain ⟨n, -, rfl, -⟩ := quoted_eq_ok.mp read
    cases style <;> rfl
  | reference => rfl
  | plain => rfl

private theorem blockScalar_isBody (h : blockScalar i s = .ok (content, u)) :
    isBody content.kind = true := by
  obtain ⟨n, stated, -, h⟩ := blockScalar_eq_ok.mp h
  cases h <;> rfl

private theorem sequence_isBody (h : sequence rules j s = .ok (content, u)) :
    isBody content.kind = true := by
  obtain ⟨first, t, rest, -, -, rfl⟩ := sequence_eq_ok.mp h
  rfl

private theorem mapping_isBody {first : Step} (h : mapping rules j first = .ok (content, u)) :
    isBody content.kind = true := by
  obtain ⟨us, t, rest, -, -, rfl⟩ := mapping_eq_ok.mp h
  rfl

/-! ### The place of a node -/

/-- Decorations, and behind them at most one node, with its content at its end. -/
inductive Placed : List Tree → Prop where
  | empty {before : List Tree} (decorated : ∀ t ∈ before, t.IsDecoration) : Placed before
  | bare {before parts : List Tree} (decorated : ∀ t ∈ before ++ parts, t.IsDecoration) :
    Placed (before ++ [.node .flowNode parts])
  | node {before parts : List Tree} {k : Kind} {content : Tree}
    (decorated : ∀ t ∈ before ++ parts, t.IsDecoration) (wrapper : Node.isWrapper k = true)
    (body : isBody content.kind = true) : Placed (before ++ [.node k (parts ++ [content])])

namespace Properties

private theorem placed_bare (hp : p.Decorated) : Placed p.bare := by
  unfold bare
  split
  · exact .empty fun t ht => hp t (List.mem_append_left _ ht)
  · exact .bare hp

private theorem placed_wrap {k : Kind} (hp : p.Decorated) {comments : List Tree}
    (hcomments : ∀ t ∈ comments, t.IsDecoration) (hk : Node.isWrapper k = true)
    (hcontent : isBody content.kind = true) : Placed (p.wrap k comments content) := by
  have hall : ∀ t ∈ p.before ++ p.trees ++ comments, t.IsDecoration := fun t ht =>
    (List.mem_append.mp ht).elim (hp t) (hcomments t)
  unfold wrap
  split
  · rename_i hnil
    rw [List.isEmpty_iff.mp hnil, List.append_nil] at hall
    have hbare : ∀ t ∈ p.before ++ comments ++ [], t.IsDecoration := by simpa using hall
    exact .node hbare hk hcontent
  · exact .node (by simpa using hall) hk hcontent

private theorem row_decorations (hs : s.Sound cs) (h : rowProperties s = .ok (q, t)) :
    q.Decorated := by
  cases rowProperties_eq_ok.mp h with
  | none => exact none_decorated
  | some fit read => exact read.decorated hs.settle fit

private theorem join?_decorations (h : p.join? q = some r) (hp : p.Decorated) (hq : q.Decorated) :
    r.Decorated := by
  rw [Decorated, join?_eq_some h]
  exact fun t ht => (List.mem_append.mp ht).elim (hp t) (hq t)

end Properties

/-- The rule for values places one node. -/
def Rules.Places (cs : List Char) (rules : Rules) : Prop :=
  ∀ {i compact level p s ts u}, s.Sound cs → p.Decorated →
    rules.value i compact level p s = .ok (ts, u) → Tree.hasFaultList ts = false → Placed ts

private theorem nodeAfter_placed (hrules : rules.Places cs) (hs : s.Sound cs) (ht : t.Sound cs)
    (hp : p.Decorated) (hq : q.Decorated)
    (h : nodeAfter rules i compact level p q s t = .ok (ts, u)) (hf : Tree.hasFaultList ts = false) :
    Placed ts := by
  have hjoin {r : Properties} (h : p.join? { q with before := s.comments } = some r) : r.Decorated := by
    refine Properties.join?_decorations h hp fun t ht => ?_
    rcases List.mem_append.mp ht with ht | ht
    · exact hs.decorations t ht
    · exact hq t (List.mem_append_right _ ht)
  cases (nodeAfter_eq_ok hf).mp h with
  | later _ join read => exact hrules ht (hjoin join) read hf
  | keyless _ _ _ read | keyed _ _ _ _ _ read =>
    exact Properties.placed_wrap hp hs.decorations rfl (mapping_isBody read)
  | scalar _ _ read join =>
    exact Properties.placed_wrap (hjoin join) (List.forall_mem_nil _) rfl (blockScalar_isBody read)
  | content _ read _ _ join =>
    exact Properties.placed_wrap (hjoin join) (List.forall_mem_nil _) rfl (flowContent_isBody read)

private theorem nodeHere_placed (hrules : rules.Places cs) (hs : s.Sound cs) (hp : p.Decorated)
    (h : nodeHere rules i compact level p s = .ok (ts, u)) (hf : Tree.hasFaultList ts = false) :
    Placed ts := by
  have hnode {k : Kind} {content : Tree} (hk : Node.isWrapper k = true) (hcontent : isBody content.kind = true) :
      Placed (p.wrap k s.comments content) :=
    Properties.placed_wrap hp hs.decorations hk hcontent
  cases nodeHere_eq_ok.mp h with
  | sequence _ _ read => exact hnode rfl (sequence_isBody read)
  | marked _ _ read | keyed _ _ _ read => exact hnode rfl (mapping_isBody read)
  | scalar _ read => exact hnode rfl (blockScalar_isBody read)
  | decorated property properties read =>
    obtain ⟨-, -, hadds, -⟩ := rowProperties_grown hs properties
    exact nodeAfter_placed hrules hs (hadds (.inl property)).sound hp (Properties.row_decorations hs properties) read hf
  | content read => exact hnode rfl (flowContent_isBody read)

private theorem blockValue_placed (hrules : rules.Places cs) (hs : s.Sound cs) (hp : p.Decorated)
    (h : blockValue rules i compact level p s = .ok (ts, u)) (hf : Tree.hasFaultList ts = false) :
    Placed ts := by
  cases (blockValue_eq_ok hf).mp h with
  | closed | unread | outside => exact Properties.placed_bare hp
  | node _ _ read => exact nodeHere_placed hrules hs hp read hf
  | level _ _ _ read => exact Properties.placed_wrap hp hs.decorations rfl (sequence_isBody read)

private theorem ofDepth_places (cs : List Char) : ∀ n, (Rules.ofDepth n).Places cs
  | 0 => nofun
  | n + 1 => blockValue_placed (ofDepth_places cs n)

/-! ### Documents -/

/-- The leaf is a comment, or the marker at the end of a document. -/
def IsBehind (cs : List Char) (l : Kind × Span) : Prop :=
  l.1 = .comment ∨ l.1 = .mark ∧ Text.slice? cs l.2.start l.2.stop = some ['.', '.', '.']

/-- A document: what opens it, the place of its node, and what stands behind the node. -/
def DocumentParts (cs : List Char) (parts : List Tree) : Prop :=
  ∃ opening body behind, parts = opening ++ body ++ behind ∧
    (∀ t ∈ opening, Node.isWrapper t.kind = false) ∧ Placed body ∧
      ∀ t ∈ behind, ∃ k span, t = .leaf k span ∧ IsBehind cs (k, span)

/-- Documents and comments between them. -/
def AllDocuments (cs : List Char) (ts : List Tree) : Prop :=
  ∀ t ∈ ts, (∃ span, t = .leaf .comment span) ∨ ∃ parts, t = .node .document parts ∧ DocumentParts cs parts

private theorem allDocuments_append :
    AllDocuments cs (ts ++ us) ↔ AllDocuments cs ts ∧ AllDocuments cs us := by
  simp [AllDocuments, or_imp, forall_and]

private theorem Layout.Sound.allDocuments (hs : s.Sound cs) : AllDocuments cs s.comments :=
  fun t ht => .inl (hs.comments t ht)

private theorem slice_of_marker (hs : s.Sound cs) (h : marker s '.' = true) :
    Text.slice? cs (s.cursor.spanOf 3).start (s.cursor.spanOf 3).stop = some ['.', '.', '.'] := by
  have hat := (Bool.and_eq_true_iff.mp h).2
  rw [Layout.rest] at hat
  rw [Cursor.spanOf, hs.inText.slice 3]
  rcases hr : s.cursor.rest with _ | ⟨a, _ | ⟨b, _ | ⟨c, r⟩⟩⟩ <;> rw [hr] at hat <;>
    simp_all [isMarker]

/-- The rule for documents yields nothing else. -/
def Rules.YieldsDocuments (cs : List Char) (rules : Rules) : Prop :=
  ∀ {bare s ts u}, s.Sound cs → rules.documents bare s = .ok (ts, u) → Tree.hasFaultList ts = false →
    AllDocuments cs ts

private theorem finish_documents (hrules : rules.YieldsDocuments cs) (hs : s.Sound cs)
    {opening body : List Tree}
    (hopening : ∀ t ∈ opening, Node.isWrapper t.kind = false) (hbody : Placed body)
    (h : finish rules (opening ++ body) s = .ok (ts, u)) (hf : Tree.hasFaultList ts = false) :
    AllDocuments cs ts := by
  have hdocument {behind rest : List Tree} (hrest : AllDocuments cs rest)
      (hbehind : ∀ t ∈ behind, ∃ k span, t = .leaf k span ∧ IsBehind cs (k, span)) :
      AllDocuments cs (.node .document (opening ++ body ++ behind) :: rest) :=
    List.forall_mem_cons.mpr
      ⟨.inr ⟨_, rfl, opening, body, behind, rfl, hopening, hbody, hbehind⟩, hrest⟩
  cases finish_eq_ok.mp h with
  | dots dots more =>
    rw [Tree.hasFaultList_cons, Bool.or_eq_false_iff] at hf
    refine hdocument (hrules (Layout.mark_adds hs 3).sound more hf.2) fun t ht => ?_
    rcases List.mem_append.mp ht with ht | ht
    · obtain ⟨span, rfl⟩ := hs.comments t ht
      exact ⟨.comment, span, rfl, .inl rfl⟩
    · exact ⟨.mark, _, List.mem_singleton.mp ht, .inr ⟨rfl, slice_of_marker hs dots⟩⟩
  | ends _ _ more =>
    rw [Tree.hasFaultList_cons, Bool.or_eq_false_iff] at hf
    have hall := hdocument (hrules hs more hf.2) (List.forall_mem_nil _)
    rwa [List.append_nil] at hall

private theorem documentFrom_documents {n : Nat} (hrules : (Rules.ofDepth n).YieldsDocuments cs)
    (hs : s.Sound cs)
    {opening : List Tree} (hopening : ∀ t ∈ opening, Node.isWrapper t.kind = false)
    (h : documentFrom (.ofDepth n) opening s = .ok (ts, u)) (hf : Tree.hasFaultList ts = false) :
    AllDocuments cs ts := by
  obtain ⟨body, v, hbody, -, h⟩ := (documentFrom_eq_ok hf).mp h
  have hparts := finish_hasFault h hf
  rw [Tree.hasFaultList_append, Bool.or_eq_false_iff] at hparts
  obtain ⟨hvalue, -⟩ := (ofDepth_sound cs n).value hs Properties.none_sound hbody hparts.2
  have hplaced := ofDepth_places cs n hs Properties.none_decorated hbody hparts.2
  exact finish_documents hrules hvalue.sound hopening hplaced h hf

private theorem isWrapper_of_comment (hs : s.Sound cs) :
    ∀ t ∈ s.comments, Node.isWrapper t.kind = false := by
  intro t ht
  obtain ⟨span, rfl⟩ := hs.comments t ht
  rfl

private theorem isWrapper_of_mark (hs : s.Sound cs) (n : Nat) :
    ∀ t ∈ (s.token .mark n).1, Node.isWrapper t.kind = false := by
  intro t ht
  rcases List.mem_append.mp ht with ht | ht
  · exact isWrapper_of_comment hs t ht
  · rw [List.mem_singleton.mp ht]
    rfl

/-- Before the node of a document there are directives, comments and a marker. -/
private theorem directives_opening (n : Nat) (hs : s.Sound cs)
    (h : (Rules.ofDepth n).directives s = .ok (ts, u)) :
    ∀ t ∈ ts, Node.isWrapper t.kind = false := by
  induction n generalizing s ts u with
  | zero => cases h
  | succ n ih =>
    have h : directiveLines (.ofDepth n) s = .ok (ts, u) := h
    cases directiveLines_cases h with
    | ended => exact isWrapper_of_mark hs 3
    | directive nameRead partsRead more =>
      have hname := Layout.token?_adds hs.settle nameRead
      have hrest := ih (parameters_add hname.sound partsRead).sound more
      intro t ht
      rcases List.mem_append.mp ht with ht | ht
      · exact isWrapper_of_comment hs t ht
      · rcases List.mem_cons.mp ht with rfl | ht
        · rfl
        · exact hrest t ht

private theorem streamDocuments_documents {n : Nat} (hrules : (Rules.ofDepth n).YieldsDocuments cs)
    {bare : Bool}
    (hs : s.Sound cs) (h : streamDocuments (.ofDepth n) bare s = .ok (ts, u))
    (hf : Tree.hasFaultList ts = false) : AllDocuments cs ts := by
  obtain ⟨us, rfl, hus⟩ := streamDocuments_eq_ok.mp h
  rw [Tree.hasFaultList_append, Bool.or_eq_false_iff] at hf
  refine allDocuments_append.mpr ⟨hs.allDocuments, ?_⟩
  cases hus with
  | ended => exact List.forall_mem_nil _
  | marked _ _ read =>
    exact documentFrom_documents hrules (Layout.mark_adds hs.settle 3).sound (isWrapper_of_mark hs.settle 3) read hf.2
  | directed _ _ _ _ directives read =>
    obtain ⟨hadds, -⟩ := (ofDepth_sound cs n).directives hs.settle directives (documentFrom_hasFault read hf.2)
    exact documentFrom_documents hrules hadds.sound (directives_opening n hs.settle directives) read hf.2
  | empty _ _ _ _ _ read =>
    exact finish_documents hrules hs.settle (List.forall_mem_nil _) (.empty (List.forall_mem_nil _)) read hf.2
  | opened _ _ _ _ _ _ read =>
    exact documentFrom_documents hrules hs.settle (List.forall_mem_nil _) read hf.2

private theorem ofDepth_documents (cs : List Char) : ∀ n, (Rules.ofDepth n).YieldsDocuments cs
  | 0 => nofun
  | n + 1 => streamDocuments_documents (ofDepth_documents cs n)

/-- The tree of a text without fault consists of documents. -/
theorem Tree.ofText_documents (h : (Tree.ofText cs).hasFault = false) :
    ∃ ts, Tree.ofText cs = .node .stream ts ∧ AllDocuments cs ts := by
  unfold Tree.ofText at h ⊢
  split at h
  · rename_i ts t hstream
    have hf : Tree.hasFaultList ts = false := by
      simpa [Tree.isFault, Tree.kind] using h
    exact ⟨ts, rfl, ofDepth_documents cs _ (Layout.ofText_sound cs) hstream hf⟩
  · simp [Tree.upTo, Tree.isFault, Tree.kind] at h

end YamlOutline.Syntax
