import YamlOutline.Proofs.Reparse.Pieces

/-! Tokens that stand in the row of the one before, and texts whose only node begins with a quote or
with the bracket of a collection. -/

namespace YamlOutline.Syntax
variable {rules : Rules} {i : Indent} {s u : Layout} {x : Tree} {c : Char} {piece r : List Char}

namespace Layout

/-- The next token begins with `rest`, in the row of the last one. -/
structure Stands (rest : List Char) (s : Layout) : Prop where
  rest : s.rest = rest
  fresh : s.fresh = false
  comments : s.comments = []

private theorem after_stands {p : Cursor} (n : Nat) (hp : p.rest = List.replicate n ' ' ++ piece)
    (hr : atToken piece = true) : (after p).Stands piece ∧ (after p).cursor.row = p.row := by
  obtain ⟨hrest, -, hrow⟩ := Cursor.drop_spaces n hp
  rw [(Passage.passes_spaces n false false 0 hp hr).after_eq]
  exact ⟨⟨hrest, rfl, rfl⟩, hrow⟩

namespace Stands
variable {c d : Char} {r : List Char}

theorem at?_eq (h : s.Stands (c :: r)) (d : Char) : s.at? d = (c == d) := by
  simp [Layout.at?, h.rest]

theorem atMark_eq (h : s.Stands (c :: r)) (d : Char) : s.atMark d = (c == d && atGap r) := by
  simp [Layout.atMark, h.rest]

theorem within (h : s.Stands piece) (i : Indent) : s.within i = true := by
  simp [Layout.within, h.fresh]

theorem settle (h : s.Stands piece) : s.settle = s :=
  settle_eq h.comments

end Stands

theorem after_drop_stands (front : List Char) (n : Nat) (hs : s.rest = front ++ (List.replicate n ' ' ++ piece))
    (hr : atToken piece = true) : (after (s.cursor.drop front.length)).Stands piece ∧
      (after (s.cursor.drop front.length)).cursor.row = (s.cursor.drop front.length).row := by
  refine after_stands n ?_ hr
  rw [Cursor.rest_drop, show s.cursor.rest = _ from hs, List.drop_left]

/-- The next characters as a token, with blanks behind them. -/
theorem token_stands (front : List Char) (n : Nat) (hs : s.rest = front ++ (List.replicate n ' ' ++ piece))
    (hcomments : s.comments = []) (hr : atToken piece = true) (k : Kind) :
    ∃ t, s.token k front.length = ([.leaf k (s.cursor.spanOf front.length)], t) ∧ t.Stands piece ∧
      ∀ cs, s.cursor.In cs → t.cursor.In cs :=
  ⟨_, by rw [token, hcomments, List.nil_append], (after_drop_stands front n hs hr).1,
    fun cs hin => (after_sound (hin.drop _)).inText⟩

end Layout

/-- A quote, or the bracket that opens a collection. -/
def isOpening (c : Char) : Bool :=
  c == '[' || c == '\x7b' || c == '"' || c == '\''

private theorem isOpening_cases (hc : isOpening c = true) :
    c = '[' ∨ c = '\x7b' ∨ c = '"' ∨ c = '\'' := by
  simpa [isOpening, or_assoc] using hc

/-- A node of content alone, at the top of a text or in the row of the token before it. -/
private theorem nodeHere_of_content {compact level : Bool} (hcomments : s.comments = [])
    (h : flowContent rules false i s = .ok (x, u))
    (hkey : (isKeyColon u s.cursor.row && ((compact || s.fresh) && !s.tabbed)) = false) :
    nodeHere rules i compact level {} s = .ok ([.node .flowNode [x]], u) := by
  have hnode : NodeHere rules i compact level {} s _ u := .content h hkey (Bool.and_false _)
  rw [hcomments] at hnode
  exact nodeHere_eq_ok.mpr hnode

/-- A node that begins with a quote or a bracket, in the row of the token before it, is no key. -/
theorem blockValue_of_stands {level : Bool} (hc : isOpening c = true) (hs : s.Stands (c :: r))
    (hi : i.isSequence = false) (houter : i.outer = 0) (hread : flowContent rules false i s = .ok (x, u)) :
    blockValue rules i false level {} s = .ok ([.node .flowNode [x]], u) := by
  have hchar : isNull c = false ∧ c ≠ '-' ∧ c ≠ '.' := by
    obtain rfl | rfl | rfl | rfl := isOpening_cases hc <;> decide
  have hcloses : s.closes i = false := by
    have hend : s.atEnd = false := by simp [Layout.atEnd, hs.rest, hchar]
    have hdoc := Layout.atDocument_eq_false ((hs.at?_eq c).trans (beq_self_eq_true c)) hchar.2
    simp [Layout.closes, hend, hdoc, Layout.dedents, hi, houter]
  have hnode : nodeHere rules i false level {} s = .ok ([.node .flowNode [x]], u) :=
    nodeHere_of_content hs.comments hread (by simp [hs.fresh])
  rw [blockValue, if_neg (by simp [hcloses]), if_pos (hs.within i), hnode]

theorem opening_of_isOpening {cs : List Char} (hcs : cs = c :: r) (hc : isOpening c = true) :
    Opening 0 (c :: r) (.ofText cs) := by
  subst hcs
  have hopens : opensToken c = true ∧ c.toNat ≠ 0xFEFF := by
    obtain rfl | rfl | rfl | rfl := isOpening_cases hc <;> decide
  exact Layout.opening_ofText 0 hopens.1 hopens.2

end YamlOutline.Syntax

namespace YamlOutline
open Syntax (Tree Layout isOpening)

variable {c : Char} {cs r : List Char} {u : Layout} {x : Tree}

/-- A text whose only node begins with a quote or a bracket. -/
theorem parse_of_opening {k : Syntax.Kind} (hcs : cs = c :: r) (hc : isOpening c = true)
    (hnode : Syntax.nodeHere (.ofDepth (2 * cs.length + 2)) .top false false {} (.ofText cs) = .ok ([.node k [x]], u))
    (hu : u.Stands []) (hk : k = .blockNode ∨ k = .flowNode)
    (hx : Node.isAside x.kind = false) (hf : x.hasFault = false) :
    parse (.ofList cs) = .ok (Node.ofTree? cs 0 x) := by
  have hs := Syntax.opening_of_isOpening hcs hc
  have hat (d : Char) : (Layout.ofText cs).at? d = (c == d) := by simp [Layout.at?, hs.rest]
  have hchar : Syntax.isNull c = false ∧ c ≠ '-' ∧ c ≠ '.' ∧ (c == '%') = false := by
    obtain rfl | rfl | rfl | rfl := Syntax.isOpening_cases hc <;> decide
  obtain ⟨hnull, hdash, hdot, hpercent⟩ := hchar
  have hend : (Layout.ofText cs).atEnd = false := by simp [Layout.atEnd, hs.rest, hnull]
  have hdoc := Layout.atDocument_eq_false ((hat c).trans (beq_self_eq_true c)) ⟨hdash, hdot⟩
  exact parse_of_content hs.fresh hs.comments hend hdoc (by rw [hat, hpercent]) hnode hu.rest hk hx hf
    (by simp [hu.comments])

/-- A text of flow content. -/
theorem parse_of_flowContent (hcs : cs = c :: r) (hc : isOpening c = true)
    (hread : Syntax.flowContent (.ofDepth (2 * cs.length + 2)) false .top (.ofText cs) = .ok (x, u))
    (hu : u.Stands []) (hx : Node.isAside x.kind = false) (hf : x.hasFault = false) :
    parse (.ofList cs) = .ok (Node.ofTree? cs 0 x) := by
  have hs := Syntax.opening_of_isOpening hcs hc
  refine parse_of_opening hcs hc (Syntax.nodeHere_of_content hs.comments hread ?_) hu (.inr rfl) hx hf
  simp [Syntax.isKeyColon, Layout.atMark, hu.rest]

end YamlOutline
