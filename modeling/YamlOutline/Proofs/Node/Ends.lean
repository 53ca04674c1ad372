import YamlOutline.Proofs.Node.Lowering

/-! Where nodes and entries end. A span ends with the last token of the tree that it comes from, and
the leaves of the tree go on behind that token: with comments, and with the lines of a block scalar,
which are no token. White space apart, that is all the text that a span leaves out, and the text
behind the node of the only document of a stream is no more than that and the marker of its end. -/

namespace YamlOutline

open Syntax (Span Tree Kind Ordered Covers IsBehind IsEnd ordered_append_iff)
open Text (size)

variable {cs : List Char} {lo hi : Nat} {ls pre post before after : List (Kind × Span)} {l : Kind × Span}

namespace Node

/-! ### Behind a token -/

/-- Something other than white space stands there. -/
def HasText (cs : List Char) (s : Span) : Prop :=
  ∃ o c, Text.At cs o c ∧ s.start ≤ o ∧ o < s.stop ∧ Text.isBlank c = false

/-- Where the text of a token ends. -/
def trimmedStop (source : List Char) (s : Span) : Nat :=
  s.start + size (Text.trimEnd ((Text.slice? source s.start s.stop).getD []))

/-- The last leaf with content, and where it ends. -/
private theorem exists_lastToken (cs : List Char) (h : Content ls) :
    ∃ pre l post, ls = pre ++ l :: post ∧
    isToken l.1 l.2 = true ∧ (∀ m ∈ post, isToken m.1 m.2 = false) ∧
      stopOf cs ls = trimmedStop cs l.2 := by
  obtain ⟨l, -, hfind, hstop⟩ := stop_of_content cs h
  obtain ⟨ht, xs, ys, hls, hxs⟩ := List.find?_eq_some_iff_append.mp hfind
  refine ⟨ys.reverse, l, xs.reverse, ?_, ht, fun m hm => ?_, hstop⟩
  · rw [← List.reverse_reverse ls, hls]
    simp
  · simpa using hxs m (List.mem_reverse.mp hm)

/-- What is cut off the end of a token is white space. -/
private theorem isBlank_of_trimmed {s : Span} {o : Nat} {c : Char} (hs : s.start ≤ s.stop)
    (hb : Text.IsBoundary cs s.start) (hb' : Text.IsBoundary cs s.stop) (hat : Text.At cs o c)
    (hlo : trimmedStop cs s ≤ o) (hhi : o < s.stop) : Text.isBlank c = true := by
  obtain ⟨before, piece, after, hcs, hstart, hstop⟩ := hb.cut hb' hs
  have hslice : Text.slice? cs s.start s.stop = some piece := by
    rw [hcs, hstart, hstop, Text.slice?_append]
  rw [trimmedStop, hslice, Option.getD_some, Text.trimEnd_eq_rdropWhile] at hlo
  have hpiece : piece.rdropWhile Text.isBlank ++ piece.rtakeWhile Text.isBlank = piece :=
    List.rdropWhile_append_rtakeWhile
  rw [hcs, ← hpiece, ← List.append_assoc] at hat
  rw [← hpiece, Text.size_append] at hstop
  refine List.mem_rtakeWhile_imp (hat.mem ?_ ?_)
  · rw [Text.size_append]
    omega
  · rw [Text.size_append]
    omega

/-- Behind the text of a token there is white space, and what belongs to later leaves. -/
private theorem behind_token (ho : Ordered cs lo hi (before ++ l :: after))
    (hc : Covers cs lo hi (before ++ l :: after)) : Covers cs (trimmedStop cs l.2) hi after := by
  intro o c hat hlo hhi
  have hl : l ∈ before ++ l :: after := by simp
  obtain ⟨hle, hs, -, hb, hb'⟩ := ho.of_mem hl
  by_cases hstop : o < l.2.stop
  · exact .inl (isBlank_of_trimmed hs hb hb' hat hlo hstop)
  have hstart : l.2.start ≤ trimmedStop cs l.2 := Nat.le_add_right _ _
  refine (hc o c hat (hle.trans (hstart.trans hlo)) hhi).imp_right ?_
  rintro ⟨m, hm, hmo⟩
  rcases List.mem_append.mp hm with hm | hm
  · have := ho.apart hm List.mem_cons_self
    omega
  rcases List.mem_cons.mp hm with rfl | hm
  · omega
  · exact ⟨m, hm, hmo⟩

/-- Behind its last token a tree has comments and lines of block scalars: up to `stop` there is
nothing that is not of the sort `P` if and only if the lines are blank. -/
private theorem covers_iff {P : Kind × Span → Bool} {stop : Nat}
    (hcomment : ∀ s, P (.comment, s) = true) (htext : ∀ s, P (.blockText, s) = false)
    (ho : Ordered cs lo hi (before ++ (pre ++ l :: post) ++ after))
    (hc : Covers cs lo hi (before ++ (pre ++ l :: post) ++ after)) (hstop : stop ≤ hi)
    (hpost : ∀ m ∈ post, isToken m.1 m.2 = false ∧ m.2.stop ≤ stop)
    (hafter : ∀ m ∈ after, stop ≤ m.2.start ∨ P m = true) :
    Covers cs (trimmedStop cs l.2) stop ((before ++ (pre ++ l :: post) ++ after).filter P) ↔
      ¬∃ s, (.blockText, s) ∈ post ∧ HasText cs s := by
  have hall : before ++ (pre ++ l :: post) ++ after = (before ++ pre) ++ l :: (post ++ after) := by simp
  rw [hall] at ho hc ⊢
  have hbehind := behind_token ho hc
  have hl := (ho.of_mem (List.mem_append_right _ List.mem_cons_self)).2.1
  constructor
  · rintro hcovers ⟨s, hs, o, c, hat, hso, hos, hblank⟩
    have hmem : (Kind.blockText, s) ∈ (before ++ pre) ++ l :: (post ++ after) := by simp [hs]
    have hlater : l.2.stop ≤ s.start := by
      rw [List.append_cons] at ho
      exact ho.apart (m := (.blockText, s)) (List.mem_append_right _ (List.mem_singleton_self l)) (by simp [hs])
    have htrim : trimmedStop cs l.2 ≤ l.2.stop := by
      obtain ⟨-, -, -, hb, hb'⟩ := ho.of_mem (l := l) (by simp)
      exact (trimmed_stop hl hb hb').1
    obtain hc | ⟨m, hm, hmo, hom, -⟩ := hcovers o c hat (by omega) (hos.trans_le (hpost _ hs).2)
    · rw [hblank] at hc
      cases hc
    · obtain ⟨hm, hP⟩ := List.mem_filter.mp hm
      obtain rfl := ho.eq_of_overlap hm hmem ⟨hmo, hom⟩ ⟨hso, hos⟩
      rw [htext] at hP
      cases hP
  · intro hno o c hat hlo hos
    obtain hblank | ⟨m, hm, hmo, hom, hcomm⟩ := hbehind o c hat hlo (hos.trans_le hstop)
    · exact .inl hblank
    have hP (hP : P m = true) : m ∈ ((before ++ pre) ++ l :: (post ++ after)).filter P := by
      simp only [List.mem_filter, hP, and_true]
      simp only [List.mem_append, List.mem_cons] at hm ⊢
      exact .inr (.inr hm)
    rcases List.mem_append.mp hm with hm | hm
    · obtain ⟨k, s⟩ := m
      have htoken := (hpost _ hm).1
      have hlt : s.start < s.stop := Nat.lt_of_le_of_lt hmo hom
      by_cases hk : k = .comment
      · subst hk
        exact .inr ⟨_, hP (hcomment s), hmo, hom, hcomm⟩
      · obtain rfl : k = .blockText := by simpa [isToken, hlt, hk] using htoken
        by_contra hblank
        refine hno ⟨s, hm, o, c, hat, hmo, hom, ?_⟩
        simpa using fun h => hblank (.inl h)
    · rcases hafter m hm with hle | hm
      · omega
      · exact .inr ⟨m, hP hm, hmo, hom, hcomm⟩

/-! ### What a span leaves out -/

/-- The comments among the leaves of a tree. -/
def comments (t : Tree) : List (Kind × Span) :=
  t.leaves.filter (·.1 == .comment)

instance (l : Kind × Span) : Decidable (IsBehind cs l) :=
  inferInstanceAs (Decidable (_ ∨ _ ∧ _))

/-- The comments and the markers at the ends of documents. -/
def commentsAndMarkers (cs : List Char) (t : Tree) : List (Kind × Span) :=
  t.leaves.filter fun l => decide (IsBehind cs l)

/-- Behind the end of the content of a tree stand lines of a block scalar that are not blank. -/
def LosesLines (cs : List Char) (t : Tree) : Prop :=
  ∃ s, (.blockText, s) ∈ t.leaves ∧ contentStop cs t ≤ s.start ∧ HasText cs s

private theorem contentStop_eq (t : Tree) : contentStop cs t = stopOf cs t.leaves :=
  congrArg Span.stop (contentSpan_eq cs t)

private theorem losesLines_iff {t : Tree} (ht : t.leaves = pre ++ l :: post)
    (ho : Ordered cs lo hi t.leaves)
    (hl : isToken l.1 l.2 = true) (hstop : contentStop cs t = trimmedStop cs l.2) :
    LosesLines cs t ↔ ∃ s, (.blockText, s) ∈ post ∧ HasText cs s := by
  obtain ⟨-, hls, -, hb, hb'⟩ := ho.of_mem (l := l) (by simp [ht])
  have htrim : trimmedStop cs l.2 ≤ l.2.stop := (trimmed_stop hls hb hb').1
  have hstart : l.2.start ≤ trimmedStop cs l.2 := Nat.le_add_right _ _
  rw [ht] at ho
  constructor
  · rintro ⟨s, hs, hle, htext⟩
    rw [ht] at hs
    refine ⟨s, ?_, htext⟩
    rcases List.mem_append.mp hs with hs | hs
    · have := ho.apart hs List.mem_cons_self
      obtain ⟨o, c, -, hso, hos, -⟩ := htext
      dsimp only at this
      omega
    rcases List.mem_cons.mp hs with rfl | hs
    · simp [isToken] at hl
    · exact hs
  · rintro ⟨s, hs, htext⟩
    rw [List.append_cons] at ho
    have hlater : l.2.stop ≤ s.start :=
      ho.apart (m := (.blockText, s)) (List.mem_append_right _ (List.mem_singleton_self l)) hs
    exact ⟨s, by simp [ht, hs], by omega, htext⟩

/-- Between the end of its content and its last leaf, a tree has only white space and comments if and
only if it loses no lines there. -/
private theorem gap_iff {t tree : Tree} (ht : t ∈ tree.preorder) (hcontent : Content t.leaves)
    (ho : Ordered cs lo hi tree.leaves) (hc : Covers cs lo hi tree.leaves) :
    Covers cs (contentStop cs t) t.span.stop (comments tree) ↔ ¬LosesLines cs t := by
  obtain ⟨pre, l, post, hleaves, htoken, hpost, hstop⟩ := exists_lastToken cs hcontent
  rw [← contentStop_eq] at hstop
  obtain ⟨⟨before, after, htree⟩, -⟩ := Tree.of_mem_preorder tree ht
  rw [comments, htree]
  rw [htree] at ho hc
  obtain ⟨mid, hbefore, hafter⟩ := ordered_append_iff.mp ho
  obtain ⟨_, -, hmid⟩ := ordered_append_iff.mp hbefore
  -- the last leaf of the tree is where its span ends
  obtain ⟨last, hlast⟩ : ∃ m, t.leaves.getLast? = some m :=
    Option.isSome_iff_exists.mp (by simp [hleaves])
  have hspan : t.span.stop = last.2.stop := by simp [Tree.span, stop?_eq, hlast]
  have hmem : last ∈ t.leaves := List.mem_of_getLast? hlast
  obtain ⟨front, hfront⟩ : ∃ front, t.leaves = front ++ [last] :=
    List.getLast?_eq_some_iff.mp hlast
  have hle : ∀ m ∈ t.leaves, m.2.stop ≤ last.2.stop := by
    intro m hm
    rw [hfront] at hm hmid
    rcases List.mem_append.mp hm with hm | hm
    · have := hmid.apart hm (List.mem_singleton_self last)
      have := (hmid.of_mem (l := last) (by simp)).2.1
      omega
    · rw [List.mem_singleton.mp hm]
  rw [losesLines_iff hleaves hmid htoken hstop, hstop, hspan]
  have hlasthi := (ho.of_mem (l := last) (by simp [hmem])).2.2.1
  have hbehind : ∀ m ∈ after, last.2.stop ≤ m.2.start := fun m hm =>
    ho.apart (List.mem_append_right _ hmem) hm
  rw [hleaves] at ho hc hle ⊢
  exact covers_iff (by simp) (by simp) ho hc hlasthi
    (fun m hm => ⟨hpost m hm, hle m (by simp [hm])⟩) fun m hm => .inl (hbehind m hm)

/-- Behind the content of a tree that only comments and markers follow there is nothing else up to the
end if and only if it loses no lines. -/
private theorem rest_iff {t tree : Tree} (htree : tree.leaves = before ++ t.leaves ++ after)
    (hafter : ∀ m ∈ after, IsBehind cs m) (hcontent : Content t.leaves)
    (ho : Ordered cs lo hi tree.leaves) (hc : Covers cs lo hi tree.leaves) :
    Covers cs (contentStop cs t) hi (commentsAndMarkers cs tree) ↔ ¬LosesLines cs t := by
  obtain ⟨pre, l, post, hleaves, htoken, hpost, hstop⟩ := exists_lastToken cs hcontent
  rw [← contentStop_eq] at hstop
  rw [commentsAndMarkers, htree]
  rw [htree] at ho hc
  obtain ⟨_, hbefore, -⟩ := ordered_append_iff.mp ho
  obtain ⟨_, -, hmid⟩ := ordered_append_iff.mp hbefore
  rw [losesLines_iff hleaves hmid htoken hstop, hstop]
  rw [hleaves] at ho hc ⊢
  exact covers_iff (by simp [IsBehind]) (by simp [IsBehind]) ho hc (Nat.le_refl hi)
    (fun m hm => ⟨hpost m hm, (ho.of_mem (l := m) (by simp [hm])).2.2.1⟩)
    fun m hm => .inr (by simpa using hafter m hm)

/-! ### The end of a document -/

variable {ts parts : List Tree} {n : Node}

/-- A node comes from the tree that stands last in its place. -/
private theorem placed_loweredFrom {w : Tree} {depth : Nat} (hplaced : Syntax.Placed ts)
    (hw : w ∈ ts)
    (hk : isWrapper w.kind = true) (h : ofTree? cs depth w = some n) :
    ∃ t ∈ w.preorder, n.LoweredFrom cs t ∧ ∃ before, Tree.leavesList ts = before ++ t.leaves := by
  have hdecorated (hw : w.IsDecoration) : False := by
    rcases hw with hw | hw | hw <;> rw [hw] at hk <;> cases hk
  cases hplaced with
  | empty decorated => exact (hdecorated (decorated w hw)).elim
  | @bare front parts decorated =>
    rcases List.mem_append.mp hw with hw | hw
    · exact (hdecorated (decorated w (List.mem_append_left _ hw))).elim
    · have hinside : (isWrapper .flowNode || Kind.flowNode == .blockSequenceItem) = true := rfl
      rw [List.mem_singleton.mp hw, ofTree?, if_pos hinside,
        inside?_none fun t ht => decorated t (List.mem_append_right _ ht)] at h
      cases h
  | @node front parts k content decorated wrapper body =>
    rcases List.mem_append.mp hw with hw | hw
    · exact (hdecorated (decorated w (List.mem_append_left _ hw))).elim
    obtain rfl := List.mem_singleton.mp hw
    obtain ⟨hcontent, -⟩ := Syntax.isBody_iff.mp body
    have hinside : (isWrapper k || k == .blockSequenceItem) = true := by simp [wrapper]
    rw [ofTree?, if_pos hinside,
      inside?_decorated (fun t ht => decorated t (List.mem_append_right _ ht)) hcontent] at h
    have hlow : n.LoweredFrom cs content := by
      cases content with
      | leaf k s => exact .token hcontent h
      | node k parts => exact .body body h
    exact ⟨content, Tree.mem_preorder_of_mem_children (by simp [Tree.children]), hlow,
      Tree.leavesList (front ++ parts), by simp⟩

/-- The node of a document comes from a tree that only comments and the marker of the end follow. -/
private theorem bodyOf_loweredFrom (hd : Syntax.DocumentParts cs parts)
    (h : bodyOf cs (.node .document parts) = some n) :
    ∃ t ∈ (Syntax.Tree.node .document parts).preorder, n.LoweredFrom cs t ∧ ∃ before after,
      Tree.leavesList parts = before ++ t.leaves ++ after ∧ ∀ l ∈ after, IsBehind cs l := by
  obtain ⟨opening, body, behind, rfl, hopening, hplaced, hbehind⟩ := hd
  obtain ⟨w, hw, hn⟩ := Option.bind_eq_some_iff.mp h
  have hk : isWrapper w.kind = true := by
    have hw := List.find?_some hw
    simp only [Bool.or_eq_true, beq_iff_eq] at hw
    rcases hw with hw | hw <;> rw [hw] <;> rfl
  have hmem : w ∈ opening ++ body ++ behind := List.mem_of_find?_eq_some hw
  have hbody : w ∈ body := by
    rcases List.mem_append.mp hmem with hw | hw
    · rcases List.mem_append.mp hw with hw | hw
      · rw [hopening w hw] at hk
        cases hk
      · exact hw
    · obtain ⟨k, span, rfl, hkind | ⟨hkind, -⟩⟩ := hbehind w hw
      · obtain rfl : k = .comment := hkind
        cases hk
      · obtain rfl : k = .mark := hkind
        cases hk
  obtain ⟨t, ht, hlow, before, hleaves⟩ := placed_loweredFrom hplaced hbody hk hn
  have hchild : w ∈ (Syntax.Tree.node .document (opening ++ body ++ behind)).children := hmem
  refine ⟨t, (Tree.of_mem_preorder _ (Tree.mem_preorder_of_mem_children hchild)).2 ht, hlow,
    Tree.leavesList opening ++ before, Tree.leavesList behind, by simp [hleaves], fun l hl => ?_⟩
  obtain ⟨u, hu, hl⟩ := Tree.mem_leavesList.mp hl
  obtain ⟨k, span, rfl, hkind⟩ := hbehind u hu
  rw [Tree.leaves_leaf, List.mem_singleton] at hl
  rwa [hl]

/-- The first document is a part of the stream. -/
private theorem first_document {d : Tree} (hts : Syntax.AllDocuments cs ts)
    (h : (Tree.preorderList ts).find? (([.document] : Syntax.Query).contains ·.kind) = some d) :
    ∃ before parts after, ts = before ++ d :: after ∧ d = .node .document parts ∧
      Syntax.DocumentParts cs parts := by
  induction ts with
  | nil => cases h
  | cons t ts ih =>
    obtain ⟨ht, hmore⟩ := List.forall_mem_cons.mp hts
    rw [Tree.preorderList, List.find?_append] at h
    obtain ⟨span, rfl⟩ | ⟨parts, rfl, hparts⟩ := ht
    · rw [Tree.preorder] at h
      obtain ⟨before, parts, after, rfl, hd⟩ := ih hmore h
      exact ⟨_ :: before, parts, after, rfl, hd⟩
    · rw [Tree.preorder] at h
      obtain rfl : Syntax.Tree.node .document parts = d := Option.some.inj h
      exact ⟨[], parts, ts, rfl, rfl, hparts⟩

/-- The tree that the node of the first document comes from. Only comments and the marker of the end
stand between it and the documents behind. -/
private theorem document_loweredFrom {d : Tree} (hts : Syntax.AllDocuments cs ts)
    (hd : (Tree.preorderList ts).find? (([.document] : Syntax.Query).contains ·.kind) = some d)
    (hbody : bodyOf cs d = some n) :
    ∃ t ∈ Tree.preorderList ts, n.LoweredFrom cs t ∧ ∃ front back before after,
      ts = front ++ d :: back ∧ d.kind = .document ∧
        Tree.leavesList ts = before ++ t.leaves ++ after ++ Tree.leavesList back ∧
        ∀ l ∈ after, IsBehind cs l := by
  obtain ⟨front, parts, back, rfl, rfl, hparts⟩ := first_document hts hd
  obtain ⟨t, ht, hlow, before, after, hleaves, hafter⟩ := bodyOf_loweredFrom hparts hbody
  have hmem : .node .document parts ∈ Tree.preorderList (front ++ .node .document parts :: back) :=
    Tree.mem_preorderList (by simp)
  exact ⟨t, (Tree.of_mem_preorderList _ hmem).2 ht, hlow, front, back, Tree.leavesList front ++ before,
    after, rfl, rfl, by simp [hleaves], hafter⟩

/-- Behind the last document there are only comments. -/
private theorem isBehind_of_comments (hts : Syntax.AllDocuments cs ts)
    (hnone : ts.countP (·.kind == .document) = 0) : ∀ l ∈ Tree.leavesList ts, IsBehind cs l := by
  intro l hl
  obtain ⟨t, ht, hl⟩ := Tree.mem_leavesList.mp hl
  obtain ⟨span, rfl⟩ | ⟨us, rfl, -⟩ := hts t ht
  · rw [Tree.leaves_leaf, List.mem_singleton] at hl
    rw [hl]
    exact .inl rfl
  · exact absurd rfl (List.countP_eq_zero.mp hnone _ ht)

/-- The parts of the tree of a text. -/
def syntaxParts (cs : List Char) : List Tree :=
  Tree.preorderList (Tree.ofText cs).children

/-- Up to the end of the tree that it comes from, the text behind the span is white space and
comments, if the tree does not lose lines of a block scalar, and only then. -/
def LosesOnlyLines (cs : List Char) (source : Tree → Prop) (span : Span) : Prop :=
  (∃ t ∈ syntaxParts cs, source t) ∧ ∀ t ∈ syntaxParts cs, source t →
    (Covers cs span.stop t.span.stop (comments (Tree.ofText cs)) ↔ ¬LosesLines cs t)

end Node

open Node (syntaxParts LosesOnlyLines LosesLines comments commentsAndMarkers)

/-- What reading a text finds: a tree without fault whose first document has a node. -/
structure Reads (cs : List Char) (root : Node) (ts : List Tree) (d : Tree) (start stop : Nat) : Prop where
  tree : Tree.ofText cs = .node .stream ts
  genuine : Syntax.AllGenuine cs ts
  documents : Syntax.AllDocuments cs ts
  ends : IsEnd cs stop
  laid : Ordered cs start stop (Tree.ofText cs).leaves
  covers : Covers cs start stop (Tree.ofText cs).leaves
  first : (Tree.preorderList ts).find? (([.document] : Syntax.Query).contains ·.kind) = some d
  body : bodyOf cs d = some root

theorem reads_of_parse {text : String} {root : Node} (h : parse text = .ok (some root)) :
    ∃ ts d start stop, Reads text.toList root ts d start stop := by
  unfold parse at h
  simp only at h
  split at h
  · cases h
  rename_i hf
  have hf : (Tree.ofText text.toList).hasFault = false := by simpa using hf
  obtain ⟨ts, hts, hg, -⟩ := Tree.ofText_read hf
  obtain ⟨us, hus, hdocuments⟩ := Tree.ofText_documents hf
  obtain ⟨start, stop, hends, hlaid, hcovers⟩ := Tree.ofText_covers hf
  obtain rfl : ts = us := (Syntax.Tree.node.inj (hts.symm.trans hus)).2
  obtain ⟨d, hd, hbody⟩ := Option.bind_eq_some_iff.mp (Except.ok.inj h)
  rw [Syntax.Query.first?, hts, Tree.preorder] at hd
  exact ⟨ts, d, start, stop, hts, hg, hdocuments, hends, hlaid, hcovers, hd, hbody⟩

namespace Reads
variable {root : Node} {ts : List Tree} {d t : Tree} {start stop : Nat}

theorem parts_eq (h : Reads cs root ts d start stop) : syntaxParts cs = Tree.preorderList ts := by
  rw [syntaxParts, h.tree]
  rfl

private theorem gap (h : Reads cs root ts d start stop) (ht : t ∈ syntaxParts cs)
    (hc : Node.Content t.leaves) :
    Covers cs (Node.contentStop cs t) t.span.stop (comments (Tree.ofText cs)) ↔ ¬LosesLines cs t := by
  refine Node.gap_iff ?_ hc h.laid h.covers
  rw [h.tree, Tree.preorder]
  exact List.mem_cons_of_mem _ (h.parts_eq ▸ ht)

private theorem losesOnlyLines (h : Reads cs root ts d start stop) {source : Tree → Prop}
    {span : Span}
    (hsource : ∃ t ∈ syntaxParts cs, source t)
    (hspan : ∀ t, source t → span = Node.contentSpan cs t)
    (hcontent : ∀ t, source t → Syntax.Genuine cs t → Node.Content t.leaves) :
    LosesOnlyLines cs source span := by
  refine ⟨hsource, fun t ht hs => ?_⟩
  have hg := h.genuine t (h.parts_eq ▸ ht)
  rw [hspan t hs]
  exact h.gap ht (hcontent t hs hg)

theorem root_loweredFrom (h : Reads cs root ts d start stop) :
    ∃ t ∈ syntaxParts cs, root.LoweredFrom cs t := by
  obtain ⟨t, ht, hlow, -⟩ := Node.document_loweredFrom h.documents h.first h.body
  exact ⟨t, h.parts_eq ▸ ht, hlow⟩

/-- The node of the only document. -/
private theorem rest (h : Reads cs root ts d start stop)
    (hone : (Tree.ofText cs).children.countP (·.kind == .document) = 1) :
    ∃ t ∈ syntaxParts cs, root.LoweredFrom cs t ∧
      (Covers cs root.span.stop stop (commentsAndMarkers cs (Tree.ofText cs)) ↔ ¬LosesLines cs t) := by
  obtain ⟨t, ht, hlow, front, back, before, after, hts, hd, hleaves, hafter⟩ :=
    Node.document_loweredFrom h.documents h.first h.body
  have htree : (Tree.ofText cs).leaves = before ++ t.leaves ++ (after ++ Tree.leavesList back) := by
    rw [h.tree, Tree.leaves_node, hleaves, List.append_assoc]
  have hback : back.countP (·.kind == .document) = 0 := by
    have hone : ts.countP (·.kind == .document) = 1 := by simpa [h.tree, Tree.children] using hone
    rw [hts, List.countP_append, List.countP_cons, if_pos (beq_iff_eq.mpr hd)] at hone
    omega
  have hdocuments : Syntax.AllDocuments cs back := fun u hu => h.documents u (by simp [hts, hu])
  refine ⟨t, h.parts_eq ▸ ht, hlow, ?_⟩
  rw [hlow.span_eq]
  refine Node.rest_iff htree (fun l hl => ?_) (hlow.content_leaves (h.genuine t ht)) h.laid h.covers
  exact (List.mem_append.mp hl).elim (hafter l) (Node.isBehind_of_comments hdocuments hback l)

end Reads

/-- The spans of what is read from a text cut off no content but the lines of block scalars. Behind the
root of the only document of a stream there is nothing else but comments and the marker of its end. -/
theorem parse_loses_only_lines {text : String} {root : Node} (h : parse text = .ok (some root)) :
    (∀ m, root.Holds m →
      LosesOnlyLines text.toList (Node.LoweredFrom text.toList · m) m.span ∧
        ∀ e ∈ m.entries, LosesOnlyLines text.toList (Entry.LoweredFrom text.toList · e) e.span) ∧
    ((Tree.ofText text.toList).children.countP (·.kind == .document) = 1 →
      ∃ t ∈ syntaxParts text.toList, root.LoweredFrom text.toList t ∧ ∃ stop, IsEnd text.toList stop ∧
        (Covers text.toList root.span.stop stop (commentsAndMarkers text.toList (Tree.ofText text.toList)) ↔
          ¬LosesLines text.toList t)) := by
  obtain ⟨ts, d, start, stop, hread⟩ := reads_of_parse h
  constructor
  · intro m hm
    obtain ⟨t, ht, hroot⟩ := hread.root_loweredFrom
    obtain ⟨u, hu, hlow⟩ := hroot.holds hm
    have hparts {u : Tree} (hu : u ∈ t.preorder) : u ∈ syntaxParts text.toList := by
      rw [hread.parts_eq] at ht ⊢
      exact (Tree.of_mem_preorderList _ ht).2 hu
    refine ⟨hread.losesOnlyLines ⟨u, hparts hu, hlow⟩ (fun _ h => h.span_eq) fun _ h => h.content_leaves,
      fun e he => ?_⟩
    obtain ⟨w, hw, hentry⟩ := hlow.entry he
    exact hread.losesOnlyLines ⟨w, hparts ((Tree.of_mem_preorder _ hu).2 hw), hentry⟩
      (fun _ h => Node.span_eq_of_entry h) fun _ h => Node.content_of_entry h
  · intro hone
    obtain ⟨t, ht, hlow, hrest⟩ := hread.rest hone
    exact ⟨t, ht, hlow, stop, hread.ends, hrest⟩

private theorem parse_eq_ok {text : String} {root : Node}
    (h : (parse text).toOption.join = some root) :
    parse text = .ok (some root) := by
  cases hp : parse text with
  | error e => simp [hp, Except.toOption] at h
  | ok r => simpa [hp, Except.toOption] using h

/-- A value over two rows, a comment beside it and the end of the document. -/
def quotedRows : String :=
  "a: 'b\n  c' # d\n...\n"

theorem parse_loses_nothing_of_quotedRows : ∃ root, parse quotedRows = .ok (some root) ∧
    LosesOnlyLines quotedRows.toList (Node.LoweredFrom quotedRows.toList · root) root.span ∧
    ∃ stop, IsEnd quotedRows.toList stop ∧
      Covers quotedRows.toList root.span.stop stop
        (commentsAndMarkers quotedRows.toList (Tree.ofText quotedRows.toList)) := by
  have hread : (parse quotedRows).toOption.join.isSome := by decide +kernel
  have hone : (Tree.ofText quotedRows.toList).children.countP (·.kind == .document) = 1 := by
    decide +kernel
  have hlines : ∀ t ∈ syntaxParts quotedRows.toList, ∀ l ∈ t.leaves, l.1 ≠ .blockText := by
    decide +kernel
  obtain ⟨root, hroot⟩ := Option.isSome_iff_exists.mp hread
  obtain ⟨hnodes, hrest⟩ := parse_loses_only_lines (parse_eq_ok hroot)
  obtain ⟨t, ht, -, stop, hend, hcovers⟩ := hrest hone
  refine ⟨root, parse_eq_ok hroot, (hnodes root .refl).1, stop, hend, hcovers.mpr ?_⟩
  rintro ⟨s, hs, -⟩
  exact hlines t ht _ hs rfl

/-- The lines of a block scalar belong to its value, and the span of the value ends before them. -/
theorem lines_of_block_scalar_cut_off : ∃ root, parse "a: |\n  x\n" = .ok (some root) ∧
    ∃ t ∈ syntaxParts "a: |\n  x\n".toList, root.LoweredFrom "a: |\n  x\n".toList t ∧
      ¬Covers "a: |\n  x\n".toList root.span.stop t.span.stop (comments (Tree.ofText "a: |\n  x\n".toList)) := by
  have hread : (parse "a: |\n  x\n").toOption.join.map Node.span = some ⟨0, 4⟩ := by
    decide +kernel
  have hstops : ∀ t ∈ syntaxParts "a: |\n  x\n".toList,
      Node.contentSpan "a: |\n  x\n".toList t = ⟨0, 4⟩ → t.span.stop = 8 := by
    decide +kernel
  have hnone : comments (Tree.ofText "a: |\n  x\n".toList) = [] := by decide +kernel
  obtain ⟨root, hroot, hspan⟩ := Option.map_eq_some_iff.mp hread
  obtain ⟨ts, d, start, stop, hreads⟩ := reads_of_parse (parse_eq_ok hroot)
  obtain ⟨t, ht, hlow⟩ := hreads.root_loweredFrom
  refine ⟨root, parse_eq_ok hroot, t, ht, hlow, fun hcovers => ?_⟩
  rw [hspan, hstops t ht (hlow.span_eq ▸ hspan), hnone] at hcovers
  have hx : Text.At "a: |\n  x\n".toList 7 'x' := ⟨"a: |\n  ".toList, ['\n'], by decide, by decide⟩
  obtain hblank | ⟨l, hl, -⟩ := hcovers 7 'x' hx (by decide) (by decide)
  · cases hblank
  · cases hl

end YamlOutline
