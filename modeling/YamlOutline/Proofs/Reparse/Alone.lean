import YamlOutline.Proofs.Reparse.BracketPairs
import YamlOutline.Proofs.Syntax.Documents

/-! What the rules laid out, taken out of its text: a collection or pair is all of the text that
begins with it. -/

namespace YamlOutline
open Syntax (Tree Layout Rules Properties Indent Kind flowNode flowContent collection)
variable {cs : List Char} {depth : Nat}

/-! ### The value of a pair in brackets -/

namespace Node
variable {xs : List Tree}

/-- Properties that stand alone are no value. -/
private theorem valueOf?_bare {p : Properties} (hp : p.Decorated) :
    valueOf? cs depth true p.bare = none := by
  have hbefore : ∀ t ∈ p.before, t.IsDecoration := fun t ht => hp t (List.mem_append_left _ ht)
  unfold Properties.bare
  split
  · rw [← List.append_nil p.before, valueOf?_decorated hbefore, valueOf?]
  · have hwrapper : (true && isWrapper (Syntax.Tree.node .flowNode p.trees).kind) = true := rfl
    have hinside : (isWrapper .flowNode || Kind.flowNode == .blockSequenceItem) = true := rfl
    rw [valueOf?_decorated hbefore, valueOf?, if_pos hwrapper, ofTree?, if_pos hinside]
    exact inside?_none fun t ht => hp t (List.mem_append_right _ ht)

end Node

namespace Syntax
open Text (size)
variable {behind : List Char} {stop rows m n k : Nat} {s s' t u v w : Layout} {i j : Indent}
  {rules : Rules} {content : Tree} {ts parts key value : List Tree} {isMapping : Bool} {p : Properties}

/-- A collection in brackets begins with its bracket. -/
private theorem collection_start {x : Node} (h : collection rules isMapping i s = .ok (content, u))
    (hx : Node.ofTree? cs depth content = some x) : x.span.start = s.cursor.offset := by
  obtain ⟨rest, -, rfl⟩ := collection_eq_ok.mp h
  have hstart {k : Kind} : (Node.contentSpan cs (.node k ((s.settle.token .mark 1).1 ++ rest))).start =
      s.cursor.offset := by
    simp [Node.contentSpan, Tree.span, Tree.start?, Tree.startList?, Layout.token, Layout.settle, Cursor.spanOf]
  cases isMapping
  all_goals
    rw [Node.ofTree?, if_neg (by decide)] at hx
    split at hx <;> cases hx <;> exact hstart

/-- A node in brackets that is a collection: its properties and then the bracket. -/
private theorem flowNode_collection {endsItself : Bool} {x : Node} (hs : s.Sound cs)
    (h : flowNode rules i s = .ok (value, endsItself, u)) (hx : Node.valueOf? cs depth true value = some x)
    (hcontainer : x.isContainer = true) :
    ∃ p t isMapping content, flowNode.properties i s = .ok (p, t) ∧
      t.at? (if isMapping then '\x7b' else '[') = true ∧ collection rules isMapping i t = .ok (content, u) ∧
      value = p.wrap .flowNode t.comments content ∧ x.span.start = t.cursor.offset := by
  cases flowNode_eq_ok.mp h with
  | bare properties =>
    rw [Node.valueOf?_bare (Properties.flowNode_decorations hs properties)] at hx
    cases hx
  | wrapped properties _ read =>
    have hcomments := (flowNode_properties_grown hs properties).2.1.sound.decorations
    have hcontent := (isBody_iff.mp (flowContent_isBody read)).1
    rw [Node.valueOf?_wrap (Properties.flowNode_decorations hs properties) hcomments hcontent] at hx
    obtain ⟨isMapping, hat, hcollection⟩ := flowContent_collection read hx hcontainer
    exact ⟨_, _, isMapping, _, properties, hat, hcollection, rfl, collection_start hcollection hx⟩

/-! ### Values without brackets around them -/

/-- What is still to be read in a piece is the end of what was to be read before. -/
private theorem Layout.Live.rest_drop (h : Layout.Live behind stop rows s s')
    (h' : Layout.Live behind stop rows t t')
    (hs : s.Sound cs) (ht : t.Sound cs) (hle : s.cursor.offset ≤ t.cursor.offset) :
    ∃ r, t'.rest = s'.rest.drop r := by
  obtain ⟨r, hr⟩ := hs.inText.drop_of_le ht.inText hle
  have hrest : (s'.rest ++ behind).drop r = t'.rest ++ behind := by
    rw [← h.rest, ← h'.rest, Layout.rest, Layout.rest, hr, Cursor.rest_drop]
  have hr : r ≤ s'.rest.length := by
    have hlength := congrArg List.length hrest
    have hpos := List.length_pos_of_ne_nil h'.more
    simp only [List.length_drop, List.length_append] at hlength
    omega
  rw [List.drop_append_of_le_length hr] at hrest
  exact ⟨r, (List.append_cancel_right hrest).symm⟩

private theorem Layout.Descends.fresh_eq_false (h : s.Descends t) (hs : s.fresh = false)
    (hrow : t.cursor.row = s.cursor.row) : t.fresh = false := by
  by_contra hfresh
  rcases h.fresh (by simpa using hfresh) with hlt | ⟨hf, -⟩
  · omega
  · rw [hs] at hf
    cases hf

/-- The content of a node in brackets is also read without brackets, as the last one of the piece. -/
def Outside (behind : List Char) (stop rows k : Nat) (j : Indent) (t u : Layout) (content : Tree) : Prop :=
  ∀ t', Layout.Live behind stop rows t t' → t'.rest.length ≤ k →
    ∃ content' u', flowContent (.ofDepth k) false j t' = .ok (content', u') ∧ content'.isAlias = content.isAlias ∧
      content'.hasFault = false ∧ Layout.Past stop u u'

/-- What stands behind a colon in brackets is also read as the value of a pair without brackets, with
its end as the end of the piece. -/
def ValueOutside (behind : List Char) (stop rows m column : Nat) (s u : Layout) : Prop :=
  ∀ compact s', Layout.Twin behind stop rows s s' → s'.rest.length < m →
    ∃ ts u', (Rules.ofDepth m).value (Indent.top.nested column false) compact true {} s' = .ok (ts, u') ∧
      Tree.hasFaultList ts = false ∧ Layout.Past stop u u'

/-- The value that begins with this token, in the row of its colon. -/
private theorem value_of_nodeHere {column : Nat} {compact : Bool}
    (hlive : Layout.Live behind stop rows s s')
    (hfresh : s.fresh = false) (hend : s.atEnd = false) (hdoc : s.atDocument = false)
    (h : nodeHere (.ofDepth k) (Indent.top.nested column false) compact true {} s' = .ok (ts, u)) :
    blockValue (.ofDepth k) (Indent.top.nested column false) compact true {} s' = .ok (ts, u) := by
  have hcloses : s'.closes (Indent.top.nested column false) = false := by
    rw [Layout.closes, ← hlive.atEnd, ← hlive.atDocument, hend, hdoc]
    simp [Layout.dedents, Indent.nested, Indent.top]
  have hwithin : s'.within (Indent.top.nested column false) = true := by
    simp [Layout.within, ← hlive.fresh, hfresh]
  rw [blockValue, if_neg (by simp [hcloses]), if_pos hwithin, h]

/-- A node in brackets that stands in the row of its colon is also the value of a pair without brackets,
if its content is read there. -/
private theorem content_outside {column : Nat} (hs : s.Sound cs) (hfresh : s.fresh = false)
    (hend : s.atEnd = false)
    (hdoc : s.atDocument = false) (hwithin : s.within i = true) (hprops : flowNode.properties i s = .ok (p, t))
    (hrow : t.cursor.row = s.cursor.row) (hbefore : t.cursor.offset < stop) (hc : Clear stop p.trees)
    (halias : p.trees ≠ [] → content.isAlias = false)
    (hcontent : Outside behind stop rows k (Indent.top.nested column false) t u content) :
    ValueOutside behind stop rows (k + 1) column s u := by
  intro compact s' htwin hk
  have hpadds := (flowNode_properties_grown hs hprops).2.1
  have hlive := htwin.live_of_lt (Nat.lt_of_le_of_lt hpadds.onward hbefore)
  have hsettled := (hs.inRow hfresh).resolve_left (by simp [hend])
  have htfresh := hpadds.descends.fresh_eq_false hfresh hrow
  have hrowp := rowProperties_of_row hsettled hwithin hprops (fun _ => by simp [Layout.within, htfresh]) hrow
  obtain ⟨q', t', hrowp', hq', htwin', hle, -⟩ := rowProperties_followed hs hlive hrowp hc
  have htlive := htwin'.live_of_lt hbefore
  obtain ⟨content', u', hcontent', halias', hf', hpast⟩ := hcontent t' htlive (by omega)
  have hkey {row : Nat} : isKeyColon u' row = false := by simp [isKeyColon, Layout.atMark, hpast.done]
  obtain ⟨ts, hhere, hfts⟩ : ∃ ts, NodeHere (.ofDepth k) (Indent.top.nested column false) compact true {} s' ts u' ∧
      Tree.hasFaultList ts = false := by
    cases rowProperties_eq_ok.mp hrowp' with
    | none =>
      exact ⟨_, .content hcontent' (by rw [hkey, Bool.false_and]) (Bool.and_false _),
        Properties.Alike.none.wrap_quiet rfl hlive.quiet hf'⟩
    | some hat =>
      obtain ⟨r', hr', hrr⟩ := Properties.Alike.none.join? hq' hlive.quiet
        (rfl : ({} : Properties).join? { p with before := [] } = some { p with before := [] })
      have hfts := hrr.wrap_quiet (k := .flowNode) rfl (rfl : Tree.hasFaultList [] = false) hf'
      have hbegins := (rowProperties_grown hs hrowp).2.2.2 (hlive.atProperty.trans hat)
      have hnode : NodeAfter (.ofDepth k) (Indent.top.nested column false) compact true {} q' s' t' _ u' :=
        .content (htlive.fresh ▸ htfresh) hcontent' (halias'.trans (halias hbegins.hasContent.ne_nil))
          (by rw [hkey, Bool.false_and]) hr'
      exact ⟨_, .decorated hat hrowp' ((nodeAfter_eq_ok hfts).mpr hnode), hfts⟩
  exact ⟨ts, u', value_of_nodeHere hlive hfresh hend hdoc (nodeHere_eq_ok.mpr hhere), hfts, hpast⟩

/-- The same for properties that stand alone. -/
private theorem bare_outside {column : Nat} (hs : s.Sound cs) (hfresh : s.fresh = false)
    (hend : s.atEnd = false)
    (hdoc : s.atDocument = false) (hrowp : rowProperties s = .ok (p, t)) (hne : p.trees ≠ [])
    (hc : Clear stop p.trees) (hstop : stop ≤ t.cursor.offset) :
    ValueOutside behind stop rows (k + 1) column s t := by
  intro compact s' htwin hk
  have hat : s.atProperty = true := by
    by_contra hat
    obtain ⟨rfl, -⟩ := rowProperties_none (eq_false_of_ne_true hat) hrowp
    exact hne rfl
  have hbegins := (rowProperties_grown hs hrowp).2.2.2 hat
  have hlive := htwin.live_of_lt (hbegins.lt_stop hc)
  obtain ⟨q', t', hrowp', hq', htwin', -, -⟩ := rowProperties_followed hs hlive hrowp hc
  have hpast := htwin'.past hstop
  obtain ⟨r', hr', hrr⟩ := Properties.Alike.none.join? hq' hlive.quiet
    (rfl : ({} : Properties).join? { p with before := [] } = some { p with before := [] })
  have hpos := List.length_pos_of_ne_nil hlive.more
  obtain ⟨l, rfl⟩ : ∃ l, k = l + 1 := ⟨k - 1, by
    change 0 < s'.rest.length at hpos
    omega⟩
  have hvalue : (Rules.ofDepth (l + 1)).value (Indent.top.nested column false) compact true r' t' =
      .ok (r'.bare, t') :=
    blockValue_past hpast
  refine ⟨r'.bare, t', value_of_nodeHere hlive hfresh hend hdoc ?_, hrr.bare_quiet, hpast⟩
  have hnode : NodeAfter (.ofDepth (l + 1)) (Indent.top.nested column false) compact true {} q' s' t' _ t' :=
    .later (by rw [hpast.atEnd, Bool.or_true]) hr' hvalue
  exact nodeHere_eq_ok.mpr
    (.decorated (hlive.atProperty.symm.trans hat) hrowp' ((nodeAfter_eq_ok hrr.bare_quiet).mpr hnode))

/-- The same for a colon with nothing behind it. -/
private theorem none_outside {column : Nat} (hm : 0 < m) (hstop : stop ≤ s.cursor.offset) :
    ValueOutside behind stop rows m column s s := by
  intro compact s' htwin _
  have hpast := htwin.past hstop
  obtain ⟨k, rfl⟩ := Nat.exists_eq_succ_of_ne_zero (Nat.ne_of_gt hm)
  exact ⟨_, s', blockValue_past hpast, rfl, hpast⟩

/-! ### Contents without brackets around them -/

private theorem hangs_of_row {floor : Nat} {cs : List Char} (h : ∀ c ∈ cs, isBreak c = false) :
    hangs floor cs = true := by
  induction cs with
  | nil => rfl
  | cons c r ih =>
    obtain ⟨hc, hr⟩ := List.forall_mem_cons.mp h
    simp [hangs, hc, ih hr]

/-- A collection whose rows hang. -/
private theorem collection_outside {column : Nat} (hs : s.Sound cs) (hfresh : s.fresh = false)
    (hat : s.at? (if isMapping then '\x7b' else '[') = true)
    (h : collection (.ofDepth n) isMapping i s = .ok (content, u)) (hf : content.hasFault = false)
    (hc : Clear stop [content]) (hstop : stop ≤ u.cursor.offset)
    (hhangs : ∀ s', Layout.Live behind stop rows s s' → hangs (column + 1) s'.rest = true) :
    Outside behind stop rows k (Indent.top.nested column false) s u content := by
  intro s' hlive hk
  obtain ⟨content', u', h', hkind, hf', htwin, -⟩ := collection_followed (m := k)
    (ofDepth_followed cs behind stop rows n) hs hlive i.top_floor_le h hf hc hk
  have hs' : s'.Hangs (column + 1) := ⟨hhangs s' hlive, fun h => by rw [← hlive.fresh, hfresh] at h; cases h⟩
  obtain ⟨h', -⟩ := collection_of_hangs (i := .top) (j := Indent.top.nested column false) (ofDepth_deepens k)
    (Nat.zero_le _) rfl hs' h' hf'
  rw [hlive.at?] at hat
  exact ⟨content', u', (flowContent_of_bracket isMapping hat).trans h', by rw [Tree.isAlias, Tree.isAlias, hkind], hf',
    htwin.past hstop⟩

/-- What ends in its row. -/
private theorem row_outside {column : Nat} (hs : s.Sound cs) (hfresh : s.fresh = false)
    (h : flowContent (.ofDepth n) true i s = .ok (content, u)) (hf : content.hasFault = false)
    (hc : Clear stop [content]) (hstop : stop ≤ u.cursor.offset)
    (hrow : ∀ s', Layout.Live behind stop rows s s' → ∀ c ∈ s'.rest, isBreak c = false) :
    Outside behind stop rows k (Indent.top.nested column false) s u content := by
  cases flowContent_eq_ok.mp h with
  | collection isMapping bracket read =>
    exact collection_outside hs hfresh bracket read hf hc hstop fun s' hlive => hangs_of_row (hrow s' hlive)
  | quoted style quote read =>
    intro s' hlive _
    obtain ⟨content', u', h', hkind, hf', htwin, -⟩ := quoted_followed hlive i.top_floor_le read hc
    have hs' : s'.Hangs (column + 1) :=
      ⟨hangs_of_row (hrow s' hlive), fun h => by rw [← hlive.fresh, hfresh] at h; cases h⟩
    obtain ⟨h', -⟩ := quoted_of_hangs (j := Indent.top.nested column false) rfl hs' h'
    rw [hlive.at?] at quote
    exact ⟨content', u', (flowContent_of_quote style quote).trans h', by rw [Tree.isAlias, Tree.isAlias, hkind], hf',
      htwin.past hstop⟩
  | reference star name =>
    intro s' hlive _
    have hread := hc.leaf (by simp [hlive.rest, hlive.more]) (nameLength?_ne_zero name) (by simp)
    rw [hlive.at?] at star
    exact ⟨_, _, flowContent_of_star star (hlive.length nameLength?_append name hread), rfl, rfl,
      (hlive.read hread).past hstop⟩
  | plain begins length =>
    intro s' hlive _
    have hn0 : _ ≠ 0 := length ▸ Plain.length_ne_zero true i.floor s.column s.rest
    have hread := hc.leaf (by simp [hlive.rest, hlive.more]) hn0 (by simp)
    have hpast := (hlive.read hread).past hstop
    have hbegins : beginsPlain false s' = true := by
      have hs' := (Bool.and_eq_true_iff.mp begins).1
      rw [hlive.rest, Plain.begins_append true hlive.ends hlive.more] at hs'
      rw [beginsPlain, Plain.begins_of_inFlow hs']
      rfl
    have hn := plain_length_followed hlive (.inl rfl) length hread
    have hn' := plain_length_of_end (j := Indent.top.nested column false) hn hlive.more (hrow s' hlive) hpast.done
    exact ⟨_, _, flowContent_eq_ok.mpr (.plain hbegins hn'), rfl, rfl, hpast⟩

/-! ### Pairs without brackets around them -/

/-- The text of a pair up to the collection that is its value, or all of it. -/
def upToValue (cs : List Char) (start : Nat) (piece : List Char) (parts : List Tree) : List Char :=
  match Node.valueOf? cs 0 false parts with
  | some x => if x.isContainer then Text.upTo piece (x.span.start - start) else piece
  | none => piece

/-- What a pair inside brackets needs to be a pair without them: no question mark, a blank behind its
colon, all of it in one row, or else up to the bracket of its value, and rows that hang from there on.
The pair is the text `piece`, which begins at `start` in this column. -/
structure FitsBlock (cs : List Char) (start column : Nat) (piece : List Char) (parts : List Tree) : Prop where
  noMark : ∀ t ∈ parts, t.kind ≠ .mark
  blank : ∀ t ∈ parts, t.kind = .valueMark → atGap ((Text.dropBytes? cs t.span.stop).getD []) = true
  inRow : ∀ c ∈ upToValue cs start piece parts, isBreak c = false
  hangs : hangs (column + 1) piece = true

instance (cs : List Char) (start column : Nat) (piece : List Char) (parts : List Tree) :
    Decidable (FitsBlock cs start column piece parts) :=
  decidable_of_iff ((∀ t ∈ parts, t.kind ≠ .mark) ∧
      (∀ t ∈ parts, t.kind = .valueMark → atGap ((Text.dropBytes? cs t.span.stop).getD []) = true) ∧
      (upToValue cs start piece parts).all (fun c => !isBreak c) = true ∧ hangs (column + 1) piece = true)
    ⟨fun h => ⟨h.1, h.2.1, by simpa using h.2.2.1, h.2.2.2⟩,
      fun h => ⟨h.noMark, h.blank, by simpa using h.inRow, h.hangs⟩⟩

private theorem FitsBlock.inRow_cases {start column : Nat} {piece : List Char}
    (h : FitsBlock cs start column piece parts) :
    (∀ c ∈ piece, isBreak c = false) ∨
      ∃ x, Node.valueOf? cs 0 false parts = some x ∧ x.isContainer = true ∧
        ∀ c ∈ Text.upTo piece (x.span.start - start), isBreak c = false := by
  have hinRow := h.inRow
  unfold upToValue at hinRow
  split at hinRow
  · rename_i x hx
    split at hinRow
    · exact .inr ⟨x, hx, ‹_›, hinRow⟩
    · exact .inl hinRow
  · exact .inl hinRow

/-- On its own, a pair of a mapping without brackets is all of the text, if its value is. -/
private theorem pair_alone (hs : s.Sound cs) (hstart : Starts behind stop s.cursor.row s s')
    (hkey : key = [] ∧ v = s ∨ Keyed (.ofDepth n) s key v) (hf : Tree.hasFaultList key = false)
    (hcolon : v.atMark ':' = true) (hc : Clear stop (key ++ (v.token .valueMark 1).1))
    (hvalue : ValueOutside behind stop s.cursor.row m s'.column (v.token .valueMark 1).2 u)
    (hm : s'.rest.length ≤ m) : ReadAlone m s' .blockMapping := by
  have hrules := ofDepth_followed cs behind stop s.cursor.row n
  rw [clear_append] at hc
  -- the colon in the other reading, and the value behind it
  have value {v' : Layout} (hlive : Layout.Live behind stop s.cursor.row v v') (hle : v'.rest.length ≤ s'.rest.length)
      (compact : Bool) :
      ∃ ts u', (Rules.ofDepth m).value (Indent.top.nested s'.column false) compact true {} (v'.token .valueMark 1).2 =
        .ok (ts, u') ∧ Tree.hasFaultList ((v'.token .valueMark 1).1 ++ ts) = false ∧ Layout.Past stop u u' := by
    obtain ⟨htwin, hquiet, hlt⟩ := hlive.token hc.2 Nat.one_ne_zero (by simp) rfl
    obtain ⟨ts, u', hvalue, hf, hpast⟩ := hvalue compact _ htwin (by omega)
    exact ⟨ts, u', hvalue, by simp [hquiet, hf], hpast⟩
  rcases hkey with ⟨rfl, rfl⟩ | hkeyed
  · have hlive := hstart.live
    have hmark : s'.atMark ':' = true := by rwa [hlive.atMark (by decide)] at hcolon
    obtain ⟨ts, u', hvalue, hf, hpast⟩ := value hlive (Nat.le_refl _) true
    have htoken : (s'.like v).token .valueMark 1 = s'.settle.token .valueMark 1 := by
      simp [Layout.token, Layout.like, Layout.settle, hstart.comments]
    rw [htoken] at hvalue hf
    have hopens := hstart.opens_pair (m := m) (by rw [hmark, Bool.or_true])
    have hpair : pair (.ofDepth m) (Indent.top.nested s'.column false) s' =
        .ok ([.node .blockMappingPair ((s'.settle.token .valueMark 1).1 ++ ts)], u') :=
      pair_eq_ok.mpr (.keyless hmark hvalue)
    rw [hpair] at hopens
    exact hopens.readAlone (by rw [Tree.hasFaultList_cons, Tree.hasFault_node, hf]; rfl) hpast hstart.more hm
  · obtain ⟨key', v', hf', hlive', hlt, hopens⟩ :=
      hkeyed.opens (m := m) hrules hs hstart hf hc.1 (colon_before hcolon hc.2) hm
    obtain ⟨ts, u', hvalue, hfv, hpast⟩ := value hlive' hlt.le false
    have hpair : keyValue (.ofDepth m) (Indent.top.nested s'.column false) key' v' =
        .ok ([.node .blockMappingPair (key' ++ (v'.token .valueMark 1).1 ++ ts)], u') :=
      keyValue_eq_ok.mpr ⟨ts, hvalue, rfl⟩
    rw [hpair] at hopens
    refine hopens.readAlone ?_ hpast hstart.more hm
    rw [Tree.hasFaultList_cons, Tree.hasFault_node, List.append_assoc, Tree.hasFaultList_append, hf', hfv]
    rfl

/-- No row begins in the piece before this place. -/
private theorem Starts.row_eq (hstart : Starts behind stop s.cursor.row s s') (hs : s.Sound cs)
    (ht : t.Sound cs)
    (hle : s.cursor.offset ≤ t.cursor.offset) (hstop : t.cursor.offset ≤ stop)
    (hrow : ∀ c ∈ Text.upTo s'.rest (t.cursor.offset - s.cursor.offset), isBreak c = false) :
    t.cursor.row = s.cursor.row := by
  obtain ⟨r, hr⟩ := hs.inText.drop_of_le ht.inText hle
  rw [hr] at hstop hrow ⊢
  have htwin := hstart.cursor.drop (hstart.cursor.length_le hstop)
  have hpassed : (s.cursor.drop r).offset - s.cursor.offset = size (s'.rest.take r) := by
    have hstart := hstart.cursor.offset
    have hend := htwin.offset
    have hsplit : size s'.cursor.rest = size (s'.cursor.rest.take r) + size (s'.cursor.rest.drop r) := by
      rw [← Text.size_append, List.take_append_drop]
    rw [Cursor.rest_drop] at hend
    change _ = size (s'.cursor.rest.take r)
    omega
  have hread := Text.upTo_append (s'.rest.take r) (s'.rest.drop r)
  rw [List.take_append_drop] at hread
  rw [hpassed, hread] at hrow
  rw [htwin.row, Cursor.row_drop_of_no_break hrow, ← hstart.cursor.row]

/-- In brackets no node begins with the marker of a document, or where the text ends. -/
private theorem flowContent_head (h : flowContent rules true i s = .ok (content, u)) :
    s.atEnd = false ∧ s.atDocument = false := by
  have at? {c : Char} (hat : s.at? c = true) (hc : isNull c = false ∧ c ≠ '-' ∧ c ≠ '.') :
      s.atEnd = false ∧ s.atDocument = false :=
    ⟨Layout.atEnd_eq_false hat hc.1, Layout.atDocument_eq_false hat hc.2⟩
  cases flowContent_eq_ok.mp h with
  | collection isMapping bracket => cases isMapping <;> exact at? bracket (by decide)
  | quoted style quote => cases style <;> exact at? quote (by decide)
  | reference star => exact at? star (by decide)
  | plain begins =>
    exact ⟨flowContent_more h, by simpa using (Bool.and_eq_true_iff.mp begins).2⟩

private theorem property_head (h : s.atProperty = true) :
    s.atEnd = false ∧ s.atDocument = false := by
  rcases (Bool.or_eq_true _ _).mp h with hat | hat
  · exact ⟨Layout.atEnd_eq_false hat (by decide), Layout.atDocument_eq_false hat (by decide)⟩
  · exact ⟨Layout.atEnd_eq_false hat (by decide), Layout.atDocument_eq_false hat (by decide)⟩

private theorem flowNode_head (h : flowNode.properties i s = .ok (p, t))
    (ht : t.atEnd = false ∧ t.atDocument = false) :
    s.atEnd = false ∧ s.atDocument = false := by
  by_cases hat : s.atProperty = true
  · exact property_head hat
  · obtain ⟨-, rfl⟩ := flowProperties_none (by simp [hat]) h
    exact ht

/-- The colon of a pair that fits is a mark: a gap is behind it. -/
private theorem FitsBlock.atMark {start column : Nat} {piece : List Char}
    (h : FitsBlock cs start column piece parts)
    (hs : s.Sound cs) (hcolon : s.at? ':' = true) (hparts : .leaf .valueMark (s.cursor.spanOf 1) ∈ parts) :
    s.atMark ':' = true := by
  obtain ⟨before, hcs, hbefore⟩ := (hs.inText.drop 1).read
  have hgap := h.blank _ hparts rfl
  have hdrop := Text.dropBytes?_append before (s.cursor.drop 1).rest
  rw [← hcs, ← hbefore] at hdrop
  have hstop : (Tree.leaf .valueMark (s.cursor.spanOf 1)).span.stop = (s.cursor.drop 1).offset := rfl
  rw [hstop, hdrop, Option.getD_some] at hgap
  obtain ⟨c, r, hr⟩ := List.exists_cons_of_ne_nil (Layout.rest_ne_nil_of_at? hcolon)
  have hrest : (s.cursor.drop 1).rest = r := by
    rw [Cursor.rest_drop, show s.cursor.rest = c :: r from hr]
    rfl
  obtain rfl : c = ':' := by simpa [Layout.at?, hr] using hcolon
  simp only [Layout.atMark, hr]
  rw [← hrest, hgap]
  rfl

/-- A node with content in the row of the colon, if the content is read there. -/
private theorem wrapped_outside {column : Nat} (hs : s.Sound cs) (hfresh : s.fresh = false)
    (hwithin : s.within i = true)
    (hprops : flowNode.properties i s = .ok (p, t)) (hread : flowContent (.ofDepth n) true i t = .ok (content, u))
    (halone : (content.isAlias && !p.trees.isEmpty) = false) (hrow : t.cursor.row = s.cursor.row)
    (hf : content.hasFault = false) (hc : Clear stop (p.wrap .flowNode t.comments content))
    (hcontent : t.fresh = false → Outside behind stop rows k (Indent.top.nested column false) t u content) :
    ValueOutside behind stop rows (k + 1) column s u := by
  have hpadds := (flowNode_properties_grown hs hprops).2.1
  obtain ⟨hend, hdoc⟩ := flowNode_head hprops (flowContent_head hread)
  have htfresh := hpadds.descends.fresh_eq_false hfresh hrow
  simp only [Properties.clear_wrap, clear_append] at hc
  have hbefore := (flowContent_adds (ofDepth_sound cs n) hpadds.sound hread hf).2.lt_stop hc.2
  exact content_outside hs hfresh hend hdoc hwithin hprops hrow hbefore hc.1.1.2
    (fun hne => by simpa [hne] using halone) (hcontent htfresh)

/-- What stands behind a colon, up to its end in the row of the colon. -/
private theorem flowNode_outside_of_row {column : Nat} {endsItself : Bool} (hs : s.Sound cs)
    (h : flowNode (.ofDepth n) i s = .ok (value, endsItself, u)) (hf : Tree.hasFaultList value = false)
    (hfresh : s.fresh = false) (hc : Clear stop value) (hstop : stop ≤ u.cursor.offset)
    (hrow : ∀ {t : Layout}, t.Sound cs → s.cursor.offset ≤ t.cursor.offset → t.cursor.offset ≤ stop →
      t.cursor.row = s.cursor.row)
    (hbreak : ∀ {t t' : Layout}, t.Sound cs → s.cursor.offset ≤ t.cursor.offset → Layout.Live behind stop rows t t' →
      ∀ c ∈ t'.rest, isBreak c = false) :
    ValueOutside behind stop rows (k + 1) column s u := by
  have hwithin := within_of_flowNode h
  cases flowNode_eq_ok.mp h with
  | @bare p _ properties some ends =>
    have hne : p.trees ≠ [] := by simpa using some
    have hat : s.atProperty = true := by
      by_contra hat
      obtain ⟨rfl, -⟩ := flowProperties_none (by simp [hat]) properties
      exact hne rfl
    obtain ⟨hend, hdoc⟩ := property_head hat
    have hsettled := (hs.inRow hfresh).resolve_left (by simp [hend])
    rw [Properties.clear_bare] at hc
    have hc := (clear_append.mp hc).2
    refine bare_outside hs hfresh hend hdoc ?_ hne hc hstop
    refine rowProperties_of_flowNode hsettled hwithin properties (by simp [Layout.atProperty_eq_false ends]) ?_
    intro p₁ t₁ hread hat' hread'
    have h₁ := Properties.read_grown hs Properties.none_sound hat hread
    have h₂ := Properties.read_grown h₁.adds.sound h₁.sound hat' hread'
    exact h₁.adds.descends.fresh_eq_false hfresh (hrow h₁.adds.sound h₁.adds.onward (h₂.begins.lt_stop hc).le)
  | wrapped properties _ read alone =>
    have hpadds := (flowNode_properties_grown hs properties).2.1
    have hfc := Properties.hasFault_of_wrap hf
    have hcc := hc
    simp only [Properties.clear_wrap, clear_append] at hcc
    have hbefore := (flowContent_adds (ofDepth_sound cs n) hpadds.sound read hfc).2.lt_stop hcc.2
    exact wrapped_outside hs hfresh hwithin properties read alone (hrow hpadds.sound hpadds.onward hbefore.le) hfc hc
      fun htfresh => row_outside hpadds.sound htfresh read hfc hcc.2 hstop fun t' hlive =>
        hbreak hpadds.sound hpadds.onward hlive

/-- Where anything behind the colon is in the row of the pair, its colon is. -/
private theorem row_of_colon {colon : List Tree} (hv : Adds cs s [] key v)
    (hw : Adds cs v [] colon w)
    (hlt : v.cursor.offset < w.cursor.offset) (ht : w.Descends t) (hrow : t.cursor.row = s.cursor.row) :
    v.cursor.row = s.cursor.row ∧ w.cursor.row = s.cursor.row ∧ w.fresh = false := by
  have hsw := hv.descends.trans hw.descends
  have hwrow := Nat.le_antisymm (ht.row.trans hrow.le) hsw.row
  have hvrow := Nat.le_antisymm (hw.descends.row.trans hwrow.le) hv.descends.row
  exact ⟨hvrow, hwrow, hsw.inRow hwrow (Nat.lt_of_le_of_lt hv.onward hlt)⟩

/-- The value of a pair in brackets, when all of the pair stands in one row. -/
private theorem value_outside_of_row {colon : List Tree} (hs : s.Sound cs)
    (hstart : Starts behind stop s.cursor.row s s')
    (hv : Adds cs s [] key v) (hw : Adds cs v [] colon w) (hlt : v.cursor.offset < w.cursor.offset)
    (hvstop : v.cursor.offset < stop)
    (hvalue : value = [] ∧ u = w ∨ ∃ endsItself, flowNode (.ofDepth n) i w = .ok (value, endsItself, u))
    (hf : Tree.hasFaultList value = false) (hc : Clear stop value) (hstop : stop ≤ u.cursor.offset)
    (hbreak : ∀ c ∈ s'.rest, isBreak c = false) :
    v.cursor.row = s.cursor.row ∧ ValueOutside behind stop s.cursor.row (k + 1) s'.column w u := by
  have hrow {t : Layout} (ht : t.Sound cs) (hle : s.cursor.offset ≤ t.cursor.offset) (hstop : t.cursor.offset ≤ stop) :
      t.cursor.row = s.cursor.row :=
    hstart.row_eq hs ht hle hstop fun c hc => hbreak c (Text.upTo_subset _ _ hc)
  rcases hvalue with ⟨rfl, rfl⟩ | ⟨endsItself, hnode⟩
  · exact ⟨hrow hv.sound hv.onward hvstop.le, none_outside k.succ_pos hstop⟩
  have honward := hv.onward.trans hlt.le
  have hwstop := (flowNode_adds (ofDepth_sound cs n) hw.sound hnode hf).2.lt_stop hc
  obtain ⟨hvrow, hwrow, hfresh⟩ := row_of_colon hv hw hlt (.refl w) (hrow hw.sound honward hwstop.le)
  refine ⟨hvrow, flowNode_outside_of_row hw.sound hnode hf hfresh hc hstop
    (fun ht hle hstop => (hrow ht (honward.trans hle) hstop).trans hwrow.symm) fun ht hle hlive c hc => ?_⟩
  obtain ⟨r, hr⟩ := hstart.live.rest_drop hlive hs ht (honward.trans hle)
  rw [hr] at hc
  exact hbreak c (List.mem_of_mem_drop hc)

/-- The value of a pair in brackets that is a collection, when the pair stands in one row up to its bracket. -/
private theorem value_outside_of_collection {colon : List Tree} {endsItself : Bool} {x : Node}
    (hs : s.Sound cs)
    (hstart : Starts behind stop s.cursor.row s s') (hv : Adds cs s [] key v) (hw : Adds cs v [] colon w)
    (hlt : v.cursor.offset < w.cursor.offset) (hnode : flowNode (.ofDepth n) i w = .ok (value, endsItself, u))
    (hf : Tree.hasFaultList value = false) (hc : Clear stop value) (hstop : stop ≤ u.cursor.offset)
    (hx : Node.valueOf? cs depth true value = some x) (hcontainer : x.isContainer = true)
    (hbreak : ∀ c ∈ Text.upTo s'.rest (x.span.start - s.cursor.offset), isBreak c = false)
    (hhangs : hangs (s.column + 1) s'.rest = true) :
    v.cursor.row = s.cursor.row ∧ ValueOutside behind stop s.cursor.row (k + 1) s'.column w u := by
  have hrules := ofDepth_sound cs n
  obtain ⟨p, t, isMapping, content, hprops, hat, hcollection, rfl, hxstart⟩ :=
    flowNode_collection hw.sound hnode hx hcontainer
  have hpadds := (flowNode_properties_grown hw.sound hprops).2.1
  have hread : flowContent (.ofDepth n) true i t = .ok (content, u) :=
    (flowContent_of_bracket isMapping hat).trans hcollection
  have hfc := Properties.hasFault_of_wrap hf
  have hcc := hc
  simp only [Properties.clear_wrap, clear_append] at hcc
  have hbefore := (flowContent_adds hrules hpadds.sound hread hfc).2.lt_stop hcc.2
  have honward := (hv.onward.trans hlt.le).trans hpadds.onward
  have hrow := hstart.row_eq hs hpadds.sound honward hbefore.le (hxstart ▸ hbreak)
  obtain ⟨hvrow, hwrow, hfresh⟩ := row_of_colon hv hw hlt hpadds.descends hrow
  have halias : content.isAlias = false := by
    obtain ⟨ts, rfl⟩ := collection_node hcollection
    cases isMapping <;> rfl
  refine ⟨hvrow, wrapped_outside hw.sound hfresh (within_of_flowNode hnode) hprops hread
    (by rw [halias]; rfl) (hrow.trans hwrow.symm) hfc hc fun htfresh =>
      collection_outside hpadds.sound htfresh hat hcollection hfc hcc.2 hstop fun t' hlive => ?_⟩
  obtain ⟨r, hr⟩ := hstart.live.rest_drop hlive hs hpadds.sound honward
  have hcolumn : s.column = s'.column := hstart.cursor.column
  rw [hr, ← hcolumn]
  exact hangs_drop hhangs r

/-- What the rules laid out as a pair inside brackets. -/
private theorem flowPair_alone (hs : s.Sound cs) (settled : s.comments = [])
    (read : flowItem (.ofDepth n) isMapping i s = .ok ([.node .flowPair parts], u))
    (hf : Tree.hasFaultList parts = false) (hstart : Starts behind stop s.cursor.row s s')
    (hfits : FitsBlock cs s.cursor.offset s.column s'.rest parts) (hstop : stop ≤ u.cursor.offset)
    (hc : Clear stop parts) (hm : s'.rest.length ≤ m) : ReadAlone m s' .blockMapping := by
  have hrules := ofDepth_sound cs n
  obtain ⟨key, v, colonAndValue, hkey, hcolon, rfl, hbehind⟩ := flowPair_parts hs read settled hf hfits.noMark
  obtain ⟨value, rfl, hvalue⟩ : ∃ value, colonAndValue = (v.token .valueMark 1).1 ++ value ∧
      (value = [] ∧ u = (v.token .valueMark 1).2 ∨
        ∃ endsItself, flowNode (.ofDepth n) i (v.token .valueMark 1).2 = .ok (value, endsItself, u)) := by
    cases hbehind with
    | none => exact ⟨[], (List.append_nil _).symm, .inl ⟨rfl, rfl⟩⟩
    | node read => exact ⟨_, rfl, .inr ⟨_, read⟩⟩
  simp only [Tree.hasFaultList_append, Bool.or_eq_false_iff] at hf
  simp only [clear_append] at hc
  -- up to the colon
  have hv : Adds cs s [] key v := by
    rcases hkey with ⟨rfl, rfl⟩ | ⟨_, hkey⟩
    · exact .refl hs (by simp)
    · exact (flowNode_adds hrules hs hkey hf.1).1
  have hcolons : ∀ t ∈ key, t.kind ≠ .valueMark := by
    rcases hkey with ⟨rfl, -⟩ | ⟨_, hkey⟩
    · simp
    · exact flowNode_no_colon hs hkey
  have hmark := hfits.atMark hv.sound hcolon (by simp [Layout.token])
  have hw := Layout.colon_adds hv.sound
  have hlt : v.cursor.offset < (v.token .valueMark 1).2.cursor.offset :=
    Nat.lt_of_lt_of_le (Cursor.offset_lt_drop (Layout.rest_ne_nil_of_at? hcolon) Nat.one_ne_zero)
      (Layout.offset_le_after (v.cursor.drop 1))
  obtain ⟨k, rfl⟩ := Nat.exists_eq_succ_of_ne_zero
    (Nat.ne_of_gt (Nat.lt_of_lt_of_le (List.length_pos_of_ne_nil hstart.more) hm))
  -- the value
  obtain ⟨hvrow, hvalue⟩ : v.cursor.row = s.cursor.row ∧
      ValueOutside behind stop s.cursor.row (k + 1) s'.column (v.token .valueMark 1).2 u := by
    rcases hfits.inRow_cases with hbreak | ⟨x, hx, hcontainer, hbreak⟩
    · exact value_outside_of_row hs hstart hv hw hlt (colon_before hmark hc.2.1) hvalue hf.2.2 hc.2.2 hstop hbreak
    · rw [valueOf?_behind_colon hv.sound hcolons] at hx
      rcases hvalue with ⟨rfl, -⟩ | ⟨endsItself, hnode⟩
      · cases hx
      exact value_outside_of_collection hs hstart hv hw hlt hnode hf.2.2 hc.2.2 hstop hx hcontainer hbreak hfits.hangs
  refine pair_alone (n := n) hs hstart ?_ hf.1 hmark (clear_append.mpr ⟨hc.1, hc.2.1⟩) hvalue hm
  refine hkey.imp_right fun hkey => ?_
  obtain ⟨_, hkey⟩ := hkey
  exact keyed_of_flowNode hrules hs settled hkey hf.1 hmark hvrow

/-! ### Whole pieces -/

private theorem flowNode_heads {endsItself : Bool}
    (h : flowNode rules i s = .ok (ts, endsItself, u)) : Heads s := by
  by_cases hat : s.atProperty = true
  · refine ⟨?_, (property_head hat).2⟩
    rcases (Bool.or_eq_true _ _).mp hat with hat | hat
    · exact begins_of_at? hat (by decide)
    · exact begins_of_at? hat (by decide)
  have hunfit : (s.atProperty && s.within i) = false := by simp [hat]
  cases flowNode_eq_ok.mp h with
  | bare properties some =>
    obtain ⟨rfl, -⟩ := flowProperties_none hunfit properties
    cases some
  | wrapped properties _ read =>
    obtain ⟨-, rfl⟩ := flowProperties_none hunfit properties
    exact ⟨flowContent_opens read, (flowContent_head read).2⟩

private theorem flowItem_heads (settled : s.comments = [])
    (h : flowItem rules isMapping i s = .ok (ts, u)) : Heads s := by
  have at? {c : Char} (hat : s.at? c = true) (hc : c = '?' ∨ c = ':') : Heads s := by
    rcases hc with rfl | rfl <;>
      exact ⟨begins_of_at? hat (by decide), Layout.atDocument_eq_false hat (by decide)⟩
  obtain ⟨us, -, hitem⟩ := flowItem_eq_ok.mp h
  rw [Layout.settle_eq settled] at hitem
  cases hitem with
  | mark question | marked question =>
    exact at? (Layout.at?_eq_of_atMark (Bool.and_eq_true_iff.mp question).1) (.inl rfl)
  | entry _ read =>
    cases flowEntry_eq_ok.mp read with
    | keyless colon =>
      simp only [Bool.and_eq_true, and_assoc] at colon
      exact at? (Layout.at?_of_atFlowColon colon.1) (.inr rfl)
    | pair node => exact flowNode_heads node
    | node read => exact flowNode_heads read

/-- A collection in brackets. -/
private theorem collection_alone (hs : s.Sound cs)
    (bracket : s.at? (if isMapping then '\x7b' else '[') = true)
    (read : collection (.ofDepth n) isMapping i s = .ok (content, u)) (hf : content.hasFault = false)
    (hstart : Starts behind stop s.cursor.row s s') (hstop : stop ≤ u.cursor.offset)
    (hc : Clear stop [content]) (hm : s'.rest.length ≤ m) : ReadAlone m s' (pieceKind content.kind) := by
  have hlive := hstart.live
  obtain ⟨content', u', hcontent', -, hf', hu, -⟩ := collection_followed (m := m)
    (ofDepth_followed cs behind stop s.cursor.row n) hs hlive (Indent.top_floor_le _) read hf hc hm
  have hpast := hu.past hstop
  rw [hlive.at?] at bracket
  have hnode := hstart.alone_brackets bracket hcontent' hpast.done
  obtain ⟨ts, rfl⟩ := collection_node read
  obtain ⟨ts', rfl⟩ := collection_node hcontent'
  rw [Tree.hasFault_node, Bool.or_eq_false_iff] at hf'
  cases isMapping <;> exact ⟨.flowNode, ts', u', hnode, .inr rfl, hf'.2, hpast.done, hpast.quiet⟩

/-- A sequence without brackets. -/
private theorem sequence_alone (hs : s.Sound cs) (opens : j.floor = s.column + 1)
    (dash : s.atMark '-' = true)
    (read : sequence (.ofDepth n) j s = .ok (content, u)) (hf : content.hasFault = false)
    (hstart : Starts behind stop s.cursor.row s s') (hstop : stop ≤ u.cursor.offset)
    (hc : Clear stop [content]) (hm : s'.rest.length ≤ m) : ReadAlone m s' (pieceKind content.kind) := by
  have hlive := hstart.live
  have htwin := Indent.twin_top opens hstart.cursor.column true
  obtain ⟨content', u', hcontent', -, hf', hu, -⟩ := sequence_followed (m := m)
    (ofDepth_blockFollowed cs behind stop s.cursor.row n) hs hlive htwin dash read hf hc (.inr hstop) hm
  have hpast := hu.past hstop
  have hdash : s'.atMark '-' = true := by rwa [hlive.atMark (by decide)] at dash
  have hnode : NodeHere (.ofDepth m) .top false false {} s' _ u' := .sequence hdash hstart.mayOpen hcontent'
  rw [hstart.comments] at hnode
  obtain ⟨_, _, _, -, -, rfl⟩ := sequence_eq_ok.mp read
  obtain ⟨first, t, rest, -, -, rfl⟩ := sequence_eq_ok.mp hcontent'
  rw [Tree.hasFault_node, Bool.or_eq_false_iff] at hf'
  exact ⟨.blockNode, first ++ rest, u', nodeHere_eq_ok.mpr hnode, .inl rfl, hf'.2, hpast.done, hpast.quiet⟩

/-- A mapping without brackets. -/
private theorem mapping_alone {first : Tree} {rest : List Tree} (hs : s.Sound cs)
    (opens : j.floor = s.column + 1)
    (noMarker : s.atDocument = false) (read : PairRead (.ofDepth n) j s first v)
    (more : (Rules.ofDepth n).pairs j v = .ok (rest, u)) (hf : Tree.hasFaultList (first :: rest) = false)
    (hstart : Starts behind stop s.cursor.row s s') (hstop : stop ≤ u.cursor.offset)
    (hc : Clear stop (first :: rest)) (hm : s'.rest.length ≤ m) : ReadAlone m s' .blockMapping := by
  have hrules := ofDepth_blockFollowed cs behind stop s.cursor.row n
  have htwin := Indent.twin_top opens hstart.cursor.column false
  rw [Tree.hasFaultList_cons, Bool.or_eq_false_iff] at hf
  rw [← List.singleton_append, clear_append] at hc
  obtain ⟨hadds, -⟩ := pairRead_adds hrules.sound hs opens noMarker read hf.1
  obtain ⟨first', hfollows, hopens⟩ := read.opens hrules hs hstart opens hf.1 hc.1
    (ends_before_pairs hrules.sound more hf.2 (.inr hstop)) hm
  obtain ⟨ts', v', hfirst', hff', hv', hlt⟩ := hfollows
  obtain ⟨rest', u', hrest', hfr', hu', -⟩ := hrules.pairs (m := m) hadds.sound hv' htwin more hf.2
    hc.2 (.inr hstop) (by omega)
  have hmapping : mapping (.ofDepth m) (Indent.top.nested s'.column false) first' =
      .ok (.node .blockMapping (ts' ++ rest'), u') :=
    mapping_eq_ok.mpr ⟨ts', v', rest', hfirst', hrest', rfl⟩
  have hpast := hu'.past hstop
  exact ⟨.blockNode, ts' ++ rest', u', hopens.trans (by rw [hmapping]; rfl), .inl rfl, by simp [hff', hfr'],
    hpast.done, hpast.quiet⟩

/-- One pair of a mapping without brackets. -/
private theorem pairRead_alone (hs : s.Sound cs) (opens : j.floor = s.column + 1)
    (read : PairRead (.ofDepth n) j s content u) (hf : content.hasFault = false)
    (hstart : Starts behind stop s.cursor.row s s') (hstop : stop ≤ u.cursor.offset)
    (hc : Clear stop [content]) (hm : s'.rest.length ≤ m) : ReadAlone m s' .blockMapping := by
  obtain ⟨first', hfollows, hopens⟩ := read.opens (ofDepth_blockFollowed cs behind stop s.cursor.row n)
    hs hstart opens hf hc (.inr (.inl hstop)) hm
  obtain ⟨ts', u', hfirst', hf', hu', -⟩ := hfollows
  rw [hfirst'] at hopens
  exact hopens.readAlone hf' (hu'.past hstop) hstart.more hm

/-- What the rules laid out as a node of its own in a text, they read in the same way as the first
node of a text. -/
theorem Origin.alone {p : Tree} (h : Origin cs p) (hf : p.hasFault = false) :
    ∃ s u, Stands cs s p u ∧ Heads s ∧ ∀ {behind stop s' m}, Starts behind stop s.cursor.row s s' →
      stop ≤ u.cursor.offset → Clear stop [p] → s'.rest.length ≤ m →
      (p.kind = .flowPair → FitsBlock cs s.cursor.offset s.column s'.rest p.children) →
      ReadAlone m s' (pieceKind p.kind) := by
  cases h with
  | brackets n isMapping i s u stands bracket read =>
    have hdoc : s.atDocument = false := by
      cases isMapping <;> exact Layout.atDocument_eq_false bracket (by decide)
    refine ⟨s, u, stands, ⟨begins_of_at? bracket (by cases isMapping <;> decide), hdoc⟩, ?_⟩
    intro behind stop s' m hstart hstop hc hm _
    exact collection_alone stands.sound bracket read hf hstart hstop hc hm
  | sequence n j s u stands opens dash read =>
    refine ⟨s, u, stands, ⟨begins_of_at? (Layout.at?_eq_of_atMark dash) (by decide),
      Layout.atDocument_of_dash dash⟩, ?_⟩
    intro behind stop s' m hstart hstop hc hm _
    exact sequence_alone stands.sound opens dash read hf hstart hstop hc hm
  | mapping n j s v u stands opens noMarker first rest read more whole =>
    subst whole
    rw [Tree.hasFault_node, Bool.or_eq_false_iff] at hf
    refine ⟨s, u, stands, ⟨read.begins, noMarker⟩, ?_⟩
    intro behind stop s' m hstart hstop hc hm _
    exact mapping_alone stands.sound opens noMarker read more hf.2 hstart hstop (by simpa using hc) hm
  | pair n j s u stands opens noMarker read =>
    refine ⟨s, u, stands, ⟨read.begins, noMarker⟩, ?_⟩
    intro behind stop s' m hstart hstop hc hm _
    have halone := pairRead_alone stands.sound opens read hf hstart hstop hc hm
    obtain ⟨parts, rfl⟩ := read.node
    exact halone
  | flowPair n isMapping i s u stands settled parts whole read =>
    subst whole
    rw [Tree.hasFault_node, Bool.or_eq_false_iff] at hf
    refine ⟨s, u, stands, flowItem_heads settled read, ?_⟩
    intro behind stop s' m hstart hstop hc hm hfits
    exact flowPair_alone stands.sound settled read hf.2 hstart (hfits rfl) hstop (by simpa using hc) hm

end Syntax
end YamlOutline
