import YamlOutline.Proofs.Reparse.InRow

/-! Sequences in brackets inside each other, with a pair in the innermost one. -/

namespace YamlOutline.Syntax
variable {rules : Rules} {inFlow : Bool} {i : Indent} {s t u : Layout} {x : Tree}
  {behind r : List Char} {c : Char}

/-! ### One item in brackets -/

/-- A sequence whose only item is followed by the closing bracket. -/
private theorem flowContent_sequence (levels : Nat) (inFlow : Bool) (i : Indent)
    (hs : s.rest = '[' :: c :: r)
    (hc : opensToken c = true) (hopen : c ≠ ']') (hb : atToken behind = true) (P : Tree → Prop)
    (hitem : ∀ t : Layout, t.Stands (c :: r) →
      ∃ only u, flowItem (.ofDepth levels) false i t = .ok ([only], u) ∧ P only ∧ u.Stands (']' :: behind)) :
    ∃ first only last u, flowContent (.ofDepth (levels + 1)) inFlow i s =
      .ok (.node .flowSequence [.leaf .mark first, only, .leaf .mark last], u) ∧ P only ∧ u.Stands behind := by
  have hat : s.at? '[' = true := by simp [Layout.at?, hs]
  obtain ⟨t, ht, hstands, -⟩ := Layout.token_stands (s := s.settle) ['['] 0 hs rfl
    (by simpa [atToken] using hc) .mark
  obtain ⟨only, u, hu, honly, hustands⟩ := hitem t hstands
  obtain ⟨v, hv, hvstands, -⟩ := Layout.token_stands (s := u) [']'] 0 hustands.rest hustands.comments hb .mark
  simp only [List.length_singleton] at ht hv
  have hnone : flowClosing false i t = none := by
    simp [flowClosing, hstands.at?_eq, hopen]
  have hclosing : flowClosing false i u = some ([.leaf .mark (u.cursor.spanOf 1)], v) := by
    simp [flowClosing, hustands.at?_eq, hustands.within, hv]
  have hentries : flowEntries (.ofDepth levels) false i t = .ok ([only, .leaf .mark (u.cursor.spanOf 1)], v) := by
    rw [flowEntries, hnone]
    refine bind_eq_ok.mpr ⟨([only], u), by simp [Layout.orSkip, hu], ?_⟩
    simp [hustands.at?_eq, hclosing]
    rfl
  have hentries : (Rules.ofDepth (levels + 1)).entries false i (s.settle.token .mark 1).2 =
      .ok ([only, .leaf .mark (u.cursor.spanOf 1)], v) := by rwa [ht]
  refine ⟨s.settle.cursor.spanOf 1, only, u.cursor.spanOf 1, v, ?_, honly, hvstands⟩
  rw [flowContent_of_bracket false hat]
  exact collection_eq_ok.mpr ⟨_, hentries, by rw [ht]; rfl⟩

private theorem flowNode_of_content (hs : s.Stands (c :: r)) (hanchor : c ≠ '&') (htag : c ≠ '!')
    (h : flowContent rules true i s = .ok (x, u)) :
    flowNode rules i s = .ok ([.node .flowNode [x]], x.endsItself, u) := by
  have hproperties : flowNode.properties i s = .ok ({}, s) :=
    flowProperties_eq_ok.mpr (.none (by simp [Layout.atProperty, hs.at?_eq, hanchor, htag]))
  have hnode := FlowNode.wrapped hproperties (hs.within i) h (Bool.and_false _)
  rw [hs.comments] at hnode
  exact flowNode_eq_ok.mpr hnode

private theorem flowItem_of_entry {parts : List Tree} {isPair : Bool} (hs : s.Stands (c :: r))
    (hc : c ≠ '?')
    (h : flowEntry rules false false false i s = .ok (parts, isPair, u)) :
    flowItem rules false i s = .ok (if isPair then [.node .flowPair parts] else parts, u) := by
  refine flowItem_eq_ok.mpr ⟨_, by rw [hs.comments, List.nil_append], ?_⟩
  rw [hs.settle]
  exact .entry (by simp [hs.atMark_eq, hc]) h

/-- An item that ends in a bracket of its own. -/
private theorem flowItem_of_content
    (hs : s.Stands ('[' :: r)) (h : flowContent rules true i s = .ok (x, u))
    (hx : x.kind = .flowSequence) (hu : u.Stands (']' :: behind)) :
    flowItem rules false i s = .ok ([.node .flowNode [x]], u) := by
  have hends : x.endsItself = true := by simp [Tree.endsItself, hx]
  have hentry : flowEntry rules false false false i s = .ok ([.node .flowNode [x]], false, u) := by
    have hnode := flowNode_of_content hs (by decide) (by decide) h
    exact flowEntry_eq_ok.mpr (.node hnode (by simp [hends, hu.at?_eq]) rfl)
  exact flowItem_of_entry hs (by decide) hentry

/-- A plain scalar of one character. -/
private theorem flowContent_plain (rules : Rules) (i : Indent) (hs : s.Stands (c :: r))
    (hc : (isVisible c && !isIndicator c) = true)
    (hdot : c ≠ '.') (hlength : ∀ floor column, Plain.length true floor column (c :: r) = 1) :
    flowContent rules true i s = .ok (.leaf .plainScalar (s.cursor.spanOf 1), .after (s.cursor.drop 1)) := by
  have hother {d : Char} (hd : isIndicator d = true) : c ≠ d := by
    rintro rfl
    simp [hd] at hc
  have hdoc : s.atDocument = false :=
    Layout.atDocument_eq_false (c := c) (by simp [hs.at?_eq]) ⟨hother rfl, hdot⟩
  have hbegins : beginsPlain true s = true := by
    simp [beginsPlain, hs.rest, Plain.begins, hother (d := '-') rfl, hother (d := '?') rfl,
      hother (d := ':') rfl, hdoc, Bool.and_eq_true_iff.mp hc]
  rw [flowContent_of_plain hbegins, hs.rest, hlength]

/-- A pair of two characters as the only item. -/
private theorem flowItem_pair (rules : Rules) (i : Indent)
    (hs : s.Stands ('a' :: ':' :: ' ' :: '1' :: ']' :: behind)) :
    ∃ only u, flowItem rules false i s = .ok ([only], u) ∧
      (∃ key colon value, only = .node .flowPair [.node .flowNode [.leaf .plainScalar key],
        .leaf .valueMark colon, .node .flowNode [.leaf .plainScalar value]]) ∧
      u.Stands (']' :: behind) := by
  obtain ⟨hkey, -⟩ := Layout.after_drop_stands ['a'] 0 hs.rest rfl
  rw [List.length_singleton] at hkey
  generalize ht : Layout.after (s.cursor.drop 1) = t at hkey
  obtain ⟨u, hu, hcolon, -⟩ := Layout.token_stands [':'] 1 hkey.rest hkey.comments rfl .valueMark
  obtain ⟨hvalue, -⟩ := Layout.after_drop_stands ['1'] 0 hcolon.rest rfl
  refine ⟨_, _, ?_, ⟨s.cursor.spanOf 1, t.cursor.spanOf 1, u.cursor.spanOf 1, rfl⟩, hvalue⟩
  have hfirst := flowContent_plain rules i hs rfl (by decide) fun _ _ => rfl
  have hsecond := flowContent_plain rules i hcolon rfl (by decide) fun _ _ => rfl
  have hvalue : flowValue rules false i t = .ok ([.leaf .valueMark (t.cursor.spanOf 1),
      .node .flowNode [.leaf .plainScalar (u.cursor.spanOf 1)]], .after (u.cursor.drop 1)) := by
    have hnode := flowNode_of_content hcolon (by decide) (by decide) hsecond
    have htoken : t.token .valueMark 1 = ([.leaf .valueMark (t.cursor.spanOf 1)], u) := hu
    have hread := FlowValue.node (s := t) (by rwa [htoken])
    rw [htoken] at hread
    exact (flowValue_eq_ok rfl).mpr hread
  have hentry : flowEntry rules false false false i s = .ok ([.node .flowNode
      [.leaf .plainScalar (s.cursor.spanOf 1)], .leaf .valueMark (t.cursor.spanOf 1),
        .node .flowNode [.leaf .plainScalar (u.cursor.spanOf 1)]], true, .after (u.cursor.drop 1)) := by
    have hat : t.atFlowColon = true := by
      rw [Layout.atFlowColon, hkey.rest]
      rfl
    have hnode := flowNode_of_content hs (by decide) (by decide) hfirst
    rw [ht] at hnode
    exact flowEntry_eq_ok.mpr (.pair hnode hat (by simp [hkey.fresh]) hvalue)
  exact flowItem_of_entry hs (by decide) hentry

/-! ### Brackets inside brackets -/

/-- `n` pairs of brackets around a sequence whose only item is a pair. -/
def nested : Nat → List Char
  | 0 => ['[', 'a', ':', ' ', '1', ']']
  | n + 1 => '[' :: nested n ++ [']']

/-- The tree of `n` sequences around one whose only item is a pair. -/
inductive IsNested : Nat → Tree → Prop where
  | pair (first last key colon value : Span) : IsNested 0 (.node .flowSequence [.leaf .mark first,
      .node .flowPair [.node .flowNode [.leaf .plainScalar key], .leaf .valueMark colon,
        .node .flowNode [.leaf .plainScalar value]], .leaf .mark last])
  | item {n : Nat} {t : Tree} (first last : Span) (h : IsNested n t) :
    IsNested (n + 1) (.node .flowSequence [.leaf .mark first, .node .flowNode [t], .leaf .mark last])

private theorem nested_eq_cons (n : Nat) : ∃ r, nested n = '[' :: r := by
  cases n with
  | zero => exact ⟨_, rfl⟩
  | succ n => exact ⟨_, rfl⟩

private theorem length_nested (n : Nat) : (nested n).length = 2 * n + 6 := by
  induction n with
  | zero => rfl
  | succ n ih =>
    simp only [nested, List.length_append, List.length_cons, List.length_nil, ih]
    omega

theorem IsNested.kind {n : Nat} {t : Tree} (h : IsNested n t) : t.kind = .flowSequence := by
  cases h <;> rfl

private theorem IsNested.quiet {n : Nat} {t : Tree} (h : IsNested n t) : t.hasFault = false := by
  induction h with
  | pair => rfl
  | item first last h ih => simp [ih, Tree.isFault, Tree.kind]

/-- With a level of rules for each pair of brackets the text is read to its end. -/
private theorem flowContent_nested {n : Nat} (levels : Nat) (inFlow : Bool) (i : Indent)
    (hs : s.rest = nested n ++ behind)
    (hb : atToken behind = true) : ∃ x u, flowContent (.ofDepth (n + 1 + levels)) inFlow i s = .ok (x, u) ∧
      IsNested n x ∧ u.Stands behind := by
  induction n generalizing s inFlow behind with
  | zero =>
    have hs : s.rest = '[' :: 'a' :: ':' :: ' ' :: '1' :: ']' :: behind := hs
    rw [Nat.zero_add, Nat.add_comm]
    obtain ⟨first, only, last, u, h, ⟨key, colon, value, rfl⟩, hu⟩ :=
      flowContent_sequence levels inFlow i hs rfl (by decide) hb _ fun t ht => flowItem_pair (.ofDepth levels) i ht
    exact ⟨_, u, h, .pair first last key colon value, hu⟩
  | succ n ih =>
    obtain ⟨r, hr⟩ := nested_eq_cons n
    have hs : s.rest = '[' :: '[' :: (r ++ ']' :: behind) := by simp [hs, nested, hr]
    rw [Nat.add_right_comm]
    obtain ⟨first, only, last, u, h, ⟨x, rfl, hx⟩, hu⟩ :=
      flowContent_sequence (n + 1 + levels) inFlow i hs rfl (by decide) hb
        (fun only => ∃ x, only = .node .flowNode [x] ∧ IsNested n x) fun t ht => by
          have hrest : t.rest = nested n ++ ']' :: behind := by rw [ht.rest, hr, List.cons_append]
          obtain ⟨x, u, h, hx, hu⟩ := ih true hrest rfl
          exact ⟨_, u, flowItem_of_content ht h hx.kind hu, ⟨x, rfl, hx⟩, hu⟩
    exact ⟨_, u, h, .item first last hx, hu⟩

end YamlOutline.Syntax

namespace YamlOutline
open Syntax (Tree Layout nested IsNested)

theorem parse_nested (n : Nat) :
    ∃ x, parse (.ofList (nested n)) = .ok (Node.ofTree? (nested n) 0 x) ∧ IsNested n x := by
  obtain ⟨r, hr⟩ := Syntax.nested_eq_cons n
  have hs := Syntax.opening_of_isOpening hr rfl
  have hrest : (Layout.ofText (nested n)).rest = nested n ++ [] := by rw [hs.rest, List.append_nil, hr]
  obtain ⟨x, u, h, hx, hu⟩ := Syntax.flowContent_nested (3 * n + 13) false .top hrest rfl
  have hlevels : 2 * (nested n).length + 2 = n + 1 + (3 * n + 13) := by
    rw [Syntax.length_nested]
    omega
  exact ⟨x, parse_of_flowContent hr rfl (hlevels ▸ h) hu (by rw [hx.kind]; rfl) hx.quiet, hx⟩

end YamlOutline
