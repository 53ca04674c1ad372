import YamlOutline.Proofs.Outline.Sources
import YamlOutline.Proofs.Reparse.Blocks

/-! Texts that are a single node: how such a text is read, given how its node is. -/

namespace YamlOutline.Syntax
open Text (size)
variable {cs piece : List Char} {s u : Layout} {ts : List Tree}

/-! ### The first token -/

/-- A piece of a text with as many blanks before it as its column says. -/
def padded (column : Nat) (piece : List Char) : List Char :=
  List.replicate column ' ' ++ piece

/-- The first token of a text stands alone before the whole text `piece`, in the given column. -/
structure Opening (column : Nat) (piece : List Char) (s : Layout) : Prop where
  rest : s.rest = piece
  column : s.column = column
  row : s.cursor.row = 0
  fresh : s.fresh = true
  tabbed : s.tabbed = false
  comments : s.comments = []

theorem Cursor.drop_spaces {p : Cursor} (n : Nat) (hp : p.rest = List.replicate n ' ' ++ piece) :
    (p.drop n).rest = piece ∧ (p.drop n).column = p.column + n ∧ (p.drop n).row = p.row := by
  induction n generalizing p with
  | zero => exact ⟨hp, rfl, rfl⟩
  | succ n ih =>
    have hnext : p.next.rest = List.replicate n ' ' ++ piece := by
      rw [rest_next, hp, List.replicate_succ]
      rfl
    obtain ⟨hrest, hcolumn, hrow⟩ := ih hnext
    have hc : p.next.column = p.column + 1 := by
      rw [column_next, hp, List.replicate_succ]
      rfl
    have hr : p.next.row = p.row := by
      rw [row_next, hp, List.replicate_succ]
      rfl
    exact ⟨hrest, by rw [drop, hcolumn, hc]; omega, by rw [drop, hrow, hr]⟩

/-- A character that neither blanks nor comments begin with. -/
def opensToken (c : Char) : Bool :=
  !isBreak c && !isNull c && !isWhite c && c != '#'

/-- Whether a token begins here, or nothing follows. -/
def atToken (cs : List Char) : Bool :=
  cs.head?.all opensToken

namespace Layout

private theorem Passage.halts_of_atToken {s : Passage} (hs : atToken s.cursor.rest = true)
    (closed : s.open? = none) :
    s.Halts := by
  cases hr : s.cursor.rest with
  | nil => exact .done hr
  | cons c r =>
    rw [hr] at hs
    have hopens : opensToken c = true := hs
    simp only [opensToken, Bool.and_eq_true, Bool.not_eq_true', bne_iff_ne] at hopens
    exact .token hr (by simp [opens, hopens]) closed

theorem Passage.passes_spaces (n : Nat) {p : Cursor} (fresh gap : Bool) (leading : Nat)
    (hp : p.rest = List.replicate n ' ' ++ piece) (hr : atToken piece = true) :
    Passes ⟨p, fresh, gap, leading, false, none, []⟩ ⟨p.drop n, 0, fresh, leading + n, false, []⟩ := by
  induction n generalizing p gap leading with
  | zero => exact .halt (halts_of_atToken (by rwa [show p.rest = piece from hp]) rfl)
  | succ n ih =>
    have step : Step ' ' ⟨p, fresh, gap, leading, false, none, []⟩ ⟨p.next, fresh, true, leading + 1, false, none, []⟩ :=
      .space rfl rfl
    have hpasses := ih true (leading + 1) (step.rest hp)
    rw [Nat.add_assoc, Nat.add_comm 1] at hpasses
    exact .step hp step hpasses

theorem opening_ofText (column : Nat) {c : Char} {r : List Char} (hc : opensToken c = true)
    (hmark : c.toNat ≠ 0xFEFF) : Opening column (c :: r) (ofText (padded column (c :: r))) := by
  have hp : Cursor.ofText (padded column (c :: r)) = ⟨padded column (c :: r), 0, 0, 0⟩ := by
    unfold Cursor.ofText padded
    cases column with
    | zero => simp [hmark]
    | succ n => rfl
  have hpasses : Passage.Passes (.first (Cursor.ofText (padded column (c :: r)))) _ :=
    Passage.passes_spaces column true true 0 (hp ▸ rfl) (show atToken (c :: r) = true from hc)
  have hdrop := Cursor.drop_spaces (p := ⟨padded column (c :: r), 0, 0, 0⟩) column
    (rfl : padded column (c :: r) = _)
  simp only [Nat.zero_add] at hdrop
  rw [hpasses.ofText_eq, hp]
  exact ⟨hdrop.1, hdrop.2.1, hdrop.2.2, rfl, rfl, rfl⟩

end Layout

/-! ### Streams of one document -/

/-- A text with one node and nothing around it. -/
private theorem ofText_of_node (hfresh : (Layout.ofText cs).fresh = true)
    (hcomments : (Layout.ofText cs).comments = []) (hend : (Layout.ofText cs).atEnd = false)
    (hdoc : (Layout.ofText cs).atDocument = false) (hpercent : (Layout.ofText cs).at? '%' = false)
    (hnode : nodeHere (.ofDepth (2 * cs.length + 2)) .top false false {} (Layout.ofText cs) = .ok (ts, u))
    (hdone : u.rest = []) : ∃ rest, Tree.ofText cs = .node .stream (.node .document ts :: rest) ∧
      Tree.hasFaultList rest = Tree.hasFaultList u.comments := by
  generalize hs : Layout.ofText cs = s at *
  have hsettle : s.settle = s := Layout.settle_eq hcomments
  have hmarkers : marker s '-' = false ∧ marker s '.' = false := by
    simp only [Layout.atDocument, atDocumentMarker, Bool.and_eq_false_iff, Bool.or_eq_false_iff] at hdoc
    simp only [marker, Bool.and_eq_false_iff]
    exact ⟨hdoc.imp_right And.left, hdoc.imp_right And.right⟩
  have hcloses : s.closes .top = false := by
    simp [Layout.closes, hend, hdoc, Layout.dedents, Indent.top]
  have hwithin : s.within .top = true := by simp [Layout.within, Indent.top]
  have hvalue : (Rules.ofDepth (2 * cs.length + 3)).value .top false false {} s = .ok (ts, u) := by
    change blockValue _ _ _ _ _ _ = _
    rw [blockValue, if_neg (by simp [hcloses]), if_pos hwithin, hnode]
  have hend' : u.atEnd = true := by simp [Layout.atEnd, hdone]
  have hrest : (Rules.ofDepth (2 * cs.length + 3)).documents false u = .ok (u.comments, u.settle) :=
    streamDocuments_eq_ok.mpr ⟨[], (List.append_nil _).symm, .ended hend'⟩
  have hfinish : finish (.ofDepth (2 * cs.length + 3)) ts u = .ok (.node .document ts :: u.comments, u.settle) :=
    finish_eq_ok.mpr (.ends (by simp [marker, hdone, isMarker]) (by simp [hend']) hrest)
  have hfrom : documentFrom (.ofDepth (2 * cs.length + 3)) [] s =
      .ok (.node .document ts :: u.comments, u.settle) := by
    refine bind_eq_ok.mpr ⟨(ts, u), hvalue, ?_⟩
    simp only [hend', Bool.true_or, if_true]
    exact bind_eq_ok.mpr ⟨([], u), rfl, by simpa using hfinish⟩
  have hstream : stream cs = .ok (.node .document ts :: u.comments, u.settle) := by
    rw [stream, hs]
    refine streamDocuments_eq_ok.mpr ⟨_, by rw [hcomments]; rfl, ?_⟩
    exact .opened hend hmarkers.1 rfl (by rw [hpercent, Bool.false_and]) hmarkers.2 hfresh (by rwa [hsettle])
  exact ⟨u.comments, by rw [Tree.ofText, hstream], rfl⟩

end YamlOutline.Syntax

namespace YamlOutline
open Syntax (Tree Kind Layout Rules nodeHere ofText_of_node)

/-- Whether the nodes of a kind are mappings or sequences. -/
def Syntax.Kind.isCollection : Kind → Bool
  | .blockMapping | .flowMapping | .blockSequence | .flowSequence => true
  | _ => false

private theorem Node.ofTree?_container (cs : List Char) {k : Kind} (ts : List Tree)
    (h : k.isCollection = true) :
    ∃ n, ofTree? cs 0 (.node k ts) = some n ∧ n.isContainer = true ∧ k.isMapping? = some n.isMapping := by
  have hdepth : ¬maxDepth ≤ 0 := by decide
  cases k <;> cases h <;> exact ⟨_, by rw [ofTree?, if_neg (by decide), if_neg hdepth], rfl, rfl⟩

/-- A text with one node. -/
theorem parse_of_content {cs : List Char} {u : Layout} {k : Kind} {x : Tree}
    (hfresh : (Layout.ofText cs).fresh = true) (hcomments : (Layout.ofText cs).comments = [])
    (hend : (Layout.ofText cs).atEnd = false) (hdoc : (Layout.ofText cs).atDocument = false)
    (hpercent : (Layout.ofText cs).at? '%' = false)
    (hnode : nodeHere (.ofDepth (2 * cs.length + 2)) .top false false {} (Layout.ofText cs) =
      .ok ([.node k [x]], u))
    (hdone : u.rest = []) (hk : k = .blockNode ∨ k = .flowNode) (hx : Node.isAside x.kind = false)
    (hf : x.hasFault = false) (hquiet : Tree.hasFaultList u.comments = false) :
    parse (.ofList cs) = .ok (Node.ofTree? cs 0 x) := by
  obtain ⟨rest, htree, hrest⟩ := ofText_of_node hfresh hcomments hend hdoc hpercent hnode hdone
  have hquiet' : (Tree.ofText cs).hasFault = false := by
    rw [htree]
    rcases hk with rfl | rfl <;> simp [hf, hrest, hquiet, Tree.isFault, Tree.kind]
  have hfirst : Syntax.Query.first? [.document] (Tree.ofText cs) = some (.node .document [.node k [x]]) := by
    rw [htree, Syntax.Query.first?, Tree.preorder, Tree.preorderList, Tree.preorder]
    rfl
  have hinside : Node.ofTree? cs 0 (.node k [x]) = Node.ofTree? cs 0 x := by
    have hwrapper : (Node.isWrapper k || k == .blockSequenceItem) = true := by
      rcases hk with rfl | rfl <;> rfl
    rw [Node.ofTree?, if_pos hwrapper, Node.inside?, if_neg (by simp [hx])]
  have hbody : bodyOf cs (.node .document [.node k [x]]) = Node.ofTree? cs 0 x := by
    rw [← hinside]
    rcases hk with rfl | rfl <;> rfl
  rw [parse, String.toList_ofList, hquiet']
  simp [hfirst, hbody]

/-- A text with one node, a mapping or a sequence. -/
theorem parse_of_node {cs : List Char} {u : Layout} {k k' : Kind} {ts : List Tree}
    (hfresh : (Layout.ofText cs).fresh = true) (hcomments : (Layout.ofText cs).comments = [])
    (hend : (Layout.ofText cs).atEnd = false) (hdoc : (Layout.ofText cs).atDocument = false)
    (hpercent : (Layout.ofText cs).at? '%' = false)
    (hnode : nodeHere (.ofDepth (2 * cs.length + 2)) .top false false {} (Layout.ofText cs) =
      .ok ([.node k [.node k' ts]], u))
    (hdone : u.rest = []) (hk : k = .blockNode ∨ k = .flowNode) (hk' : k'.isCollection = true)
    (hf : Tree.hasFaultList ts = false) (hquiet : Tree.hasFaultList u.comments = false) :
    ∃ root, parse (.ofList cs) = .ok (some root) ∧ root.isContainer = true ∧ k'.isMapping? = some root.isMapping := by
  obtain ⟨n, hn, hcontainer⟩ := Node.ofTree?_container cs ts hk'
  refine ⟨n, ?_, hcontainer⟩
  rw [← hn]
  have hx : Node.isAside k' = false ∧ Tree.isFault (.node k' []) = false := by
    cases k' <;> cases hk' <;> exact ⟨rfl, rfl⟩
  exact parse_of_content hfresh hcomments hend hdoc hpercent hnode hdone hk hx.1 (by simp [hx.2, hf]) hquiet

end YamlOutline
