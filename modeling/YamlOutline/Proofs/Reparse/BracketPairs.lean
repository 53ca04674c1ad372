import YamlOutline.Proofs.Node.Spans
import YamlOutline.Proofs.Reparse.Hanging
import YamlOutline.Proofs.Reparse.Pieces

/-! Pairs inside brackets that are taken out of them. What stands in one row up to the bracket of its
value, with a blank behind the colon, and hangs from there on, is also a pair of a mapping without
brackets. -/

namespace YamlOutline
open Syntax (Tree Layout Rules Properties Indent Kind flowNode flowContent collection)

/-! ### The value of a pair -/

namespace Node
variable {cs : List Char} {depth : Nat} {xs ys : List Tree}

private theorem valueOf?_before_colon (h : ∀ t ∈ xs, t.kind ≠ .valueMark) :
    valueOf? cs depth false (xs ++ ys) = valueOf? cs depth false ys := by
  induction xs with
  | nil => rfl
  | cons t xs ih =>
    obtain ⟨ht, hxs⟩ := List.forall_mem_cons.mp h
    rw [List.cons_append, valueOf?, Bool.false_and, if_neg Bool.false_ne_true, Bool.false_or,
      beq_eq_false_iff_ne.mpr ht, ih hxs]

private theorem valueOf?_colon {t : Tree} (h : t.kind = .valueMark) :
    valueOf? cs depth false (t :: xs) = valueOf? cs depth true xs := by
  rw [valueOf?, h]
  rfl

theorem valueOf?_decorated (h : ∀ t ∈ xs, t.IsDecoration) :
    valueOf? cs depth true (xs ++ ys) = valueOf? cs depth true ys := by
  induction xs with
  | nil => rfl
  | cons t xs ih =>
    obtain ⟨ht, hxs⟩ := List.forall_mem_cons.mp h
    have hwrapper : isWrapper t.kind = false := by
      rcases ht with h | h | h <;> rw [h] <;> rfl
    rw [List.cons_append, valueOf?, hwrapper, Bool.and_false, if_neg Bool.false_ne_true, Bool.true_or, ih hxs]

/-- The properties and comments around a node are not part of its content. -/
theorem valueOf?_wrap {p : Properties} {comments : List Tree} {content : Tree}
    (hp : p.Decorated) (hcomments : ∀ t ∈ comments, t.IsDecoration)
    (hcontent : isAside content.kind = false) :
    valueOf? cs depth true (p.wrap .flowNode comments content) = ofTree? cs depth content := by
  have hwrapped (us : List Tree) (hus : ∀ t ∈ us, t.IsDecoration) :
      valueOf? cs depth true [.node .flowNode (us ++ [content])] = ofTree? cs depth content := by
    have hwrapper : (true && isWrapper (Syntax.Tree.node .flowNode (us ++ [content])).kind) = true := rfl
    have hinside : (isWrapper .flowNode || Kind.flowNode == .blockSequenceItem) = true := rfl
    rw [valueOf?, if_pos hwrapper, ofTree?, if_pos hinside, inside?_decorated hus hcontent]
  have hbefore : ∀ t ∈ p.before, t.IsDecoration := fun t ht => hp t (List.mem_append_left _ ht)
  unfold Properties.wrap
  split
  · rw [List.append_assoc, valueOf?_decorated hbefore, valueOf?_decorated hcomments]
    exact hwrapped [] nofun
  · rw [valueOf?_decorated hbefore]
    refine hwrapped _ fun t ht => ?_
    rcases List.mem_append.mp ht with ht | ht
    · exact hp t (List.mem_append_right _ ht)
    · exact hcomments t ht

end Node

namespace Syntax
variable {cs : List Char} {s t u : Layout} {i j : Indent} {rules : Rules} {content : Tree} {ts : List Tree}

theorem Properties.flowNode_decorations {p : Properties} (hs : s.Sound cs)
    (h : flowNode.properties i s = .ok (p, t)) : p.Decorated := by
  cases flowProperties_eq_ok.mp h with
  | none => exact none_decorated
  | some fit read => exact read.decorated hs (Bool.and_eq_true_iff.mp fit).1

/-- Around the node stand at most comments. -/
private theorem flowNode_parts {endsItself : Bool} (hs : s.Sound cs)
    (h : flowNode rules i s = .ok (ts, endsItself, u)) : ∀ t ∈ ts, t.IsDecoration ∨ t.kind = .flowNode := by
  have hnode {us : List Tree} : ∀ t ∈ [Tree.node .flowNode us], t.IsDecoration ∨ t.kind = .flowNode := by
    intro t ht
    rw [List.mem_singleton.mp ht]
    exact .inr rfl
  have happend {xs ys : List Tree} (hxs : ∀ t ∈ xs, t.IsDecoration ∨ t.kind = .flowNode)
      (hys : ∀ t ∈ ys, t.IsDecoration ∨ t.kind = .flowNode) : ∀ t ∈ xs ++ ys, t.IsDecoration ∨ t.kind = .flowNode :=
    fun t ht => (List.mem_append.mp ht).elim (hxs t) (hys t)
  have hbefore {p : Properties} {t : Layout} (hprops : flowNode.properties i s = .ok (p, t)) :
      ∀ t ∈ p.before, t.IsDecoration ∨ t.kind = .flowNode :=
    fun t ht => .inl (Properties.flowNode_decorations hs hprops t (List.mem_append_left _ ht))
  cases flowNode_eq_ok.mp h with
  | bare properties =>
    unfold Properties.bare
    split
    · exact hbefore properties
    · exact happend (hbefore properties) hnode
  | @wrapped p t _ _ properties =>
    have ht : ∀ t' ∈ t.comments, t'.IsDecoration ∨ t'.kind = .flowNode :=
      fun t' ht' => .inl ((flowNode_properties_grown hs properties).2.1.sound.decorations t' ht')
    unfold Properties.wrap
    split
    · exact happend (happend (hbefore properties) ht) hnode
    · exact happend (hbefore properties) hnode

/-- The key of a pair has no colon in it. -/
theorem flowNode_no_colon {endsItself : Bool} (hs : s.Sound cs) (h : flowNode rules i s = .ok (ts, endsItself, u)) :
    ∀ t ∈ ts, t.kind ≠ .valueMark := by
  intro t ht
  rcases flowNode_parts hs h t ht with (h | h | h) | h <;> rw [h] <;> decide

/-- The value of a pair is what stands behind its colon. -/
theorem valueOf?_behind_colon {key value : List Tree} {depth : Nat} (hs : s.Sound cs)
    (hkey : ∀ t ∈ key, t.kind ≠ .valueMark) :
    Node.valueOf? cs depth false (key ++ ((s.token .valueMark 1).1 ++ value)) = Node.valueOf? cs depth true value := by
  have hcomments : ∀ t ∈ s.comments, t.kind ≠ .valueMark := by
    intro t ht
    rcases hs.decorations t ht with h | h | h <;> rw [h] <;> decide
  rw [Layout.token, List.append_assoc, Node.valueOf?_before_colon hkey, Node.valueOf?_before_colon hcomments]
  exact Node.valueOf?_colon rfl

/-- What a pair is made of that has no question mark: its key, if it has one, and the colon with the value. -/
theorem flowPair_parts {isMapping : Bool} {parts : List Tree} (hs : s.Sound cs)
    (h : flowItem rules isMapping i s = .ok ([.node .flowPair parts], u)) (hsettled : s.comments = [])
    (hf : Tree.hasFaultList parts = false) (hmark : ∀ t ∈ parts, t.kind ≠ .mark) :
    ∃ key v value,
      (key = [] ∧ v = s ∨ ∃ endsItself, flowNode rules i s = .ok (key, endsItself, v)) ∧
      v.at? ':' = true ∧ parts = key ++ value ∧ FlowValue rules i v value u := by
  obtain ⟨us, hus, hitem⟩ := flowItem_eq_ok.mp h
  rw [hsettled, List.nil_append] at hus
  rw [Layout.settle_eq hsettled] at hitem
  have hnoMark {us : List Tree} (hparts : parts = (s.token .mark 1).1 ++ us) : False := by
    refine hmark (.leaf .mark (s.cursor.spanOf 1)) ?_ rfl
    rw [hparts, Layout.token]
    simp
  cases hitem with
  | mark =>
    cases hus
    exact (hnoMark (List.append_nil _).symm).elim
  | marked =>
    cases hus
    exact (hnoMark rfl).elim
  | @entry entry isPair _ _ read =>
    cases flowEntry_eq_ok.mp read with
    | keyless colon read =>
      cases hus
      have hat := (Bool.and_eq_true_iff.mp (Bool.and_eq_true_iff.mp colon).1).1
      exact ⟨[], s, _, .inl ⟨rfl, rfl⟩, Layout.at?_of_atFlowColon hat, rfl, (flowValue_eq_ok hf).mp read⟩
    | @pair key value endsItself v _ node colon _ read =>
      cases hus
      have hat : v.at? ':' = true := by
        cases endsItself
        · exact Layout.at?_of_atFlowColon colon
        · exact colon
      rw [Tree.hasFaultList_append, Bool.or_eq_false_iff] at hf
      exact ⟨key, v, value, .inr ⟨endsItself, node⟩, hat, rfl, (flowValue_eq_ok hf.2).mp read⟩
    | node read =>
      have hentry : entry = [.node .flowPair parts] := hus.symm
      have hpair := flowNode_parts hs read (.node .flowPair parts) (by rw [hentry]; exact List.mem_singleton_self _)
      rcases hpair with (h | h | h) | h <;> cases h

/-- A collection, if the node is one. -/
theorem flowContent_collection {inFlow : Bool} {depth : Nat} {v : Node}
    (h : flowContent rules inFlow i t = .ok (content, u))
    (hv : Node.ofTree? cs depth content = some v) (hcontainer : v.isContainer = true) :
    ∃ isMapping, t.at? (if isMapping then '\x7b' else '[') = true ∧
      collection rules isMapping i t = .ok (content, u) := by
  have hleaf {k : Kind} {span : Span} (hc : content = .leaf k span) : False := by
    rw [hc, Node.ofTree?] at hv
    split at hv <;> cases hv <;> cases hcontainer
  cases flowContent_eq_ok.mp h with
  | collection isMapping bracket read => exact ⟨isMapping, bracket, read⟩
  | quoted _ _ read =>
    obtain ⟨n, -, hc, -⟩ := quoted_eq_ok.mp read
    exact (hleaf hc).elim
  | reference => exact (hleaf rfl).elim
  | plain => exact (hleaf rfl).elim

/-! ### Keys without brackets around them -/

/-- A row goes on where no line break is passed. -/
private theorem Cursor.no_break_of_row {p : Cursor} {n : Nat} (h : (p.drop n).row = p.row) :
    ∀ c ∈ p.rest.take n, isBreak c = false := by
  induction n generalizing p with
  | zero => simp
  | succ n ih =>
    have hle := p.next.row_le_drop n
    have hrow : (p.next.drop n).row = p.row := h
    cases hp : p.rest with
    | nil => simp
    | cons c r =>
      have hnext : p.next.rest = r := by rw [rest_next, hp]; rfl
      have hc : p.next.row = if isBreak c then p.row + 1 else p.row := by rw [row_next, hp]
      rw [List.take_succ_cons, List.forall_mem_cons]
      split at hc
      · omega
      · rename_i hb
        refine ⟨by simpa using hb, ?_⟩
        rw [← hnext]
        exact ih (hrow.trans hc.symm)

/-- Between two tokens of a row stand blanks alone. -/
private theorem Layout.Passage.Passes.blanks {s : Passage} (h : Passes s u)
    (closed : s.open? = none)
    (hfresh : u.fresh = false) (hend : u.atEnd = false) :
    ∃ blanks, s.cursor.rest = blanks ++ u.rest ∧ ∀ c ∈ blanks, isWhite c = true := by
  induction h with
  | halt => exact ⟨[], rfl, nofun⟩
  | @step s t u c r rest step onward ih =>
    have white (hc : isWhite c = true) (hclosed : t.open? = none) :
        ∃ blanks, s.cursor.rest = blanks ++ u.rest ∧ ∀ c ∈ blanks, isWhite c = true := by
      obtain ⟨blanks, hr, hblanks⟩ := ih hclosed hfresh hend
      refine ⟨c :: blanks, ?_, List.forall_mem_cons.mpr ⟨hc, hblanks⟩⟩
      rw [rest, List.cons_append, ← hr, step.rest rest]
    cases step with
    | fold =>
      rw [onward.fresh rfl] at hfresh
      cases hfresh
    | inside _ _ opened =>
      rw [closed] at opened
      cases opened
    | space space => exact white (by rw [space]; rfl) closed
    | tab tab => exact white (by rw [tab]; rfl) closed
    | hash =>
      obtain h | ⟨h, -⟩ := (onward.inRow hfresh).2
      · rw [h] at hend
        cases hend
      · cases h

private theorem isPlain_of_inFlow {c : Char} (h : isPlain true c = true) :
    isPlain false c = true := by
  simp only [isPlain, Bool.and_eq_true] at h ⊢
  exact ⟨h.1, rfl⟩

private theorem Plain.isHead_of_inFlow {cs : List Char} (h : isHead true cs = true) :
    isHead false cs = true := by
  cases cs with
  | nil => cases h
  | cons c r => exact isPlain_of_inFlow h

theorem Plain.begins_of_inFlow {cs : List Char} (h : begins true cs = true) : begins false cs = true := by
  cases cs with
  | nil => cases h
  | cons c r =>
    simp only [begins] at h ⊢
    split at h
    · rw [if_pos ‹_›]
      exact isHead_of_inFlow h
    · rw [if_neg ‹_›, h]

namespace Plain
variable {floor floor' passed kept : Nat} {c : Char} {r xs : List Char} {s t : At}

/-- No plain scalar goes on with this text in its row. -/
def Stops (r : List Char) : Prop :=
  ∀ inFlow floor (s : At) passed kept, s.folding = false → s.reach inFlow floor r passed kept = kept

private theorem Stops.nil : Stops [] :=
  fun _ _ _ _ _ _ => rfl

private theorem Stops.colon (h : atGap r = true) : Stops (':' :: r) := by
  refine fun inFlow floor s passed kept _ => At.reach_of_stop (fun t ht => ?_) passed kept
  cases ht with
  | fold row => cases row
  | blank white => cases white
  | text _ text =>
    have text : isHead inFlow r = true := text
    rw [isHead_of_atGap _ h] at text
    cases text

private theorem Stops.comment (h : isWhite c = true) : Stops (c :: '#' :: r) := by
  rintro inFlow floor ⟨folding, afterPlain, column⟩ passed kept rfl
  rw [At.reach_of_step (.blank h)]
  refine At.reach_of_stop (fun t ht => ?_) (passed + 1) kept
  cases ht with
  | fold row => cases row
  | blank white => cases white
  | text _ text => cases text

/-- Without brackets a scalar goes on with all that it goes on with inside them. -/
private theorem Step.outside (h : Step true floor c r s t) (hs : s.folding = false) :
    Step false floor' c r s t := by
  refine h.imp (fun text => ?_) fun hfolding => absurd hfolding (by simp [hs])
  unfold isText at text ⊢
  split at text
  · rw [if_pos ‹_›]
    exact isHead_of_inFlow text
  · rw [Bool.and_eq_true] at text
    rw [if_neg ‹_›, text.1, isPlain_of_inFlow text.2]
    rfl

/-- A plain scalar in brackets that ends in its row is the same without them. -/
private theorem At.reach_outside (hxs : ∀ c ∈ xs, isBreak c = false) (hr : Stops r)
    (hs : s.folding = false)
    (hkept : kept ≤ passed)
    (hstop : ∀ c ∈ xs.drop (s.reach true floor (xs ++ r) passed kept - passed), isWhite c = true) :
    s.reach false floor' (xs ++ r) passed kept = s.reach true floor (xs ++ r) passed kept := by
  induction xs generalizing s passed kept with
  | nil => rw [List.nil_append, hr _ _ _ _ _ hs, hr _ _ _ _ _ hs]
  | cons c xs ih =>
    obtain ⟨hc, hxs⟩ := List.forall_mem_cons.mp hxs
    rw [List.cons_append] at hstop ⊢
    by_cases hstep : ∃ t, Step true floor c (xs ++ r) s t
    · obtain ⟨t, hstep⟩ := hstep
      rw [reach_of_step hstep] at hstop ⊢
      rw [reach_of_step (hstep.outside hs)]
      have ht : t.folding = false := by
        cases hstep with
        | fold row => exact absurd row (ne_true_of_eq_false hc)
        | blank => exact hs
        | text => rfl
      refine ih hxs ht (by split <;> omega) fun d hd => hstop d ?_
      generalize t.reach true floor (xs ++ r) (passed + 1) _ = n at hd ⊢
      rcases Nat.lt_or_ge passed n with hlt | hge
      · rw [show n - passed = n - (passed + 1) + 1 by omega, List.drop_succ_cons]
        exact hd
      · rw [Nat.sub_eq_zero_of_le hge]
        exact List.mem_cons_of_mem _ (List.mem_of_mem_drop hd)
    · -- the scalar does not end before the blanks behind it
      rw [reach_of_stop (not_exists.mp hstep), Nat.sub_eq_zero_of_le hkept] at hstop
      exact absurd ⟨_, .blank (hstop c (List.mem_cons_self ..))⟩ hstep

end Plain

/-- What a plain scalar takes of its row, with blanks behind it and then the end of what it may take. -/
private theorem Plain.length_outside {floor floor' column n : Nat} {cs blanks r : List Char}
    (hn : length true floor column cs = n) (hrow : ∀ c ∈ cs.take n, isBreak c = false)
    (hcs : cs.drop n = blanks ++ r) (hblanks : ∀ c ∈ blanks, isWhite c = true) (hr : Stops r)
    (hne : cs ≠ []) : length false floor' column cs = n := by
  obtain ⟨m, rfl⟩ := Nat.exists_eq_succ_of_ne_zero (hn ▸ length_ne_zero true floor column cs)
  obtain ⟨c, xs, rfl⟩ := List.exists_cons_of_ne_nil hne
  rw [List.take_succ_cons, List.forall_mem_cons] at hrow
  rw [List.drop_succ_cons] at hcs
  have hxs : xs = (xs.take m ++ blanks) ++ r := by
    rw [List.append_assoc, ← hcs, List.take_append_drop]
  change At.reach ⟨false, true, column + 1⟩ true floor xs 1 1 = m + 1 at hn
  change At.reach ⟨false, true, column + 1⟩ false floor' xs 1 1 = m + 1
  rw [hxs] at hn ⊢
  rw [← hn]
  refine At.reach_outside (fun d hd => ?_) hr rfl (Nat.le_refl 1) ?_
  · rcases List.mem_append.mp hd with hd | hd
    · exact hrow.2 d hd
    · have hd := hblanks d hd
      rw [isWhite, Bool.or_eq_true, beq_iff_eq, beq_iff_eq] at hd
      rcases hd with rfl | rfl <;> rfl
  · rw [hn, Nat.add_sub_cancel, List.drop_append, List.drop_of_length_le (List.length_take_le m xs), List.nil_append]
    exact fun d hd => hblanks d (List.mem_of_mem_drop hd)

private theorem Layout.rest_of_atMark {c : Char} (h : s.atMark c = true) :
    ∃ r, s.rest = c :: r ∧ atGap r = true := by
  unfold atMark at h
  split at h
  · rename_i d r hr
    obtain ⟨hd, hgap⟩ := Bool.and_eq_true_iff.mp h
    exact ⟨r, by rw [hr, beq_iff_eq.mp hd], hgap⟩
  · cases h

/-- A plain scalar that is a key. -/
private theorem plain_length_of_colon {n : Nat} (hn : Plain.length true i.floor s.column s.rest = n)
    (hrow : (Layout.after (s.cursor.drop n)).cursor.row = s.cursor.row)
    (hfresh : (Layout.after (s.cursor.drop n)).fresh = false)
    (hcolon : (Layout.after (s.cursor.drop n)).atMark ':' = true) :
    Plain.length false i.floor s.column s.rest = n := by
  obtain ⟨r, hu, hgap⟩ := Layout.rest_of_atMark hcolon
  have hend : (Layout.after (s.cursor.drop n)).atEnd = false := by
    rw [Layout.atEnd, hu]
    rfl
  obtain ⟨v, hv, he⟩ := Layout.after_passes (s.cursor.drop n)
  rw [he] at hfresh hend hu
  obtain ⟨blanks, hblanks, hwhite⟩ := hv.blanks rfl hfresh hend
  have hblanks : (s.cursor.drop n).rest = blanks ++ ':' :: r := hblanks.trans (congrArg _ hu)
  have hrow : (s.cursor.drop n).row = s.cursor.row := by
    have hle := (Layout.after_row_le (s.cursor.drop n)).1
    exact Nat.le_antisymm (hle.trans (Nat.le_of_eq hrow)) (s.cursor.row_le_drop n)
  rw [Cursor.rest_drop] at hblanks
  refine Plain.length_outside hn (Cursor.no_break_of_row hrow) hblanks hwhite (.colon hgap) fun hnil => ?_
  have hnil : s.cursor.rest = [] := hnil
  simp [hnil] at hblanks

/-- Behind the last token of a text of one row stand blanks, and a comment if there is one. -/
private theorem Layout.Passage.Passes.ends {s : Passage} (h : Passes s u) (closed : s.open? = none)
    (hfresh : s.fresh = false)
    (hrow : ∀ c ∈ s.cursor.rest, isBreak c = false) (hcolumn : s.cursor.column ≠ 0) (hend : u.rest = []) :
    ∃ blanks r, s.cursor.rest = blanks ++ r ∧ (∀ c ∈ blanks, isWhite c = true) ∧
      (Plain.Stops r ∨ s.gap = true ∧ blanks = [] ∧ ∃ us, r = '#' :: us) := by
  induction h with
  | halt =>
    have hend : _ = [] := hend
    exact ⟨[], [], hend, nofun, .inl .nil⟩
  | @step s t u c r rest step onward ih =>
    rw [rest, List.forall_mem_cons] at hrow
    have hcolumn' : s.cursor.next.column ≠ 0 := by
      rw [Cursor.column_next, rest]
      simp [hrow.1]
    have white (hc : isWhite c = true) (hclosed : t.open? = none) (hf : t.fresh = false) :
        ∃ blanks r, s.cursor.rest = blanks ++ r ∧ (∀ c ∈ blanks, isWhite c = true) ∧
          (Plain.Stops r ∨ s.gap = true ∧ blanks = [] ∧ ∃ us, r = '#' :: us) := by
      obtain ⟨blanks, r', hr, hblanks, hstops⟩ := ih hclosed hf (by rw [step.rest rest]; exact hrow.2)
        (by rwa [step.cursor]) hend
      rw [step.rest rest] at hr
      obtain hstops | ⟨-, rfl, us, rfl⟩ := hstops
      · exact ⟨c :: blanks, r', by rw [rest, hr]; rfl, List.forall_mem_cons.mpr ⟨hc, hblanks⟩, .inl hstops⟩
      · exact ⟨[], c :: '#' :: us, by rw [rest, hr]; rfl, nofun, .inl (.comment hc)⟩
    cases step with
    | fold row => exact absurd row (ne_true_of_eq_false hrow.1)
    | inside _ _ opened =>
      rw [closed] at opened
      cases opened
    | space space => exact white (by rw [space]; rfl) closed hfresh
    | tab tab => exact white (by rw [tab]; rfl) closed hfresh
    | hash hash allowed =>
      refine ⟨[], c :: r, rest, nofun, .inr ⟨?_, rfl, r, by rw [hash]⟩⟩
      simpa [commentAllowed, hfresh, hcolumn] using allowed

private theorem Cursor.column_drop_of_row {p : Cursor} (hrow : ∀ c ∈ p.rest, isBreak c = false)
    (n : Nat) :
    (p.drop n).column = p.column + min n p.rest.length := by
  induction n generalizing p with
  | zero => simp [drop]
  | succ n ih =>
    cases hp : p.rest with
    | nil => simp [drop_of_rest_eq_nil hp]
    | cons c r =>
      have hnext : p.next.rest = r := by rw [rest_next, hp]; rfl
      rw [hp, List.forall_mem_cons] at hrow
      have hcolumn : p.next.column = p.column + 1 := by
        rw [column_next, hp]
        simp [hrow.1]
      rw [drop, ih (by rw [hnext]; exact hrow.2), hcolumn, hnext, List.length_cons]
      omega

/-- A plain scalar that ends a text of one row. -/
theorem plain_length_of_end {n : Nat} (hn : Plain.length true i.floor s.column s.rest = n) (hr : s.rest ≠ [])
    (hrow : ∀ c ∈ s.rest, isBreak c = false) (hend : (Layout.after (s.cursor.drop n)).rest = []) :
    Plain.length false j.floor s.column s.rest = n := by
  have hcolumn : (s.cursor.drop n).column ≠ 0 := by
    have hpos : 0 < s.cursor.rest.length := List.length_pos_of_ne_nil hr
    have hn := hn ▸ Plain.length_ne_zero true i.floor s.column s.rest
    rw [Cursor.column_drop_of_row hrow]
    omega
  obtain ⟨v, hv, he⟩ := Layout.after_passes (s.cursor.drop n)
  rw [he] at hend
  have hrow' : ∀ c ∈ (s.cursor.drop n).rest, isBreak c = false := fun c hc =>
    hrow c (by rw [Cursor.rest_drop] at hc; exact List.mem_of_mem_drop hc)
  obtain ⟨blanks, r, (hblanks : (s.cursor.drop n).rest = blanks ++ r), hwhite, hr' | ⟨h, -⟩⟩ :=
    hv.ends rfl rfl hrow' hcolumn hend
  · rw [Cursor.rest_drop] at hblanks
    exact Plain.length_outside hn (fun c hc => hrow c (List.mem_of_mem_take hc)) hblanks hwhite hr' hr
  · cases h

/-- The content of a key is the same without the brackets around it. -/
private theorem flowContent_outside (h : flowContent rules true i s = .ok (content, u))
    (hrow : u.cursor.row = s.cursor.row) (hfresh : u.fresh = false) (hcolon : u.atMark ':' = true) :
    flowContent rules false i s = .ok (content, u) := by
  rw [flowContent_eq_ok]
  cases flowContent_eq_ok.mp h with
  | collection isMapping bracket read => exact .collection isMapping bracket read
  | quoted style quote read => exact .quoted style quote read
  | reference star name => exact .reference star name
  | plain begins length =>
    have hbegins : beginsPlain false s = true := by
      rw [beginsPlain, Plain.begins_of_inFlow (Bool.and_eq_true_iff.mp begins).1]
      rfl
    exact .plain hbegins (plain_length_of_colon length hrow hfresh hcolon)

private theorem Properties.read_token {p q : Properties} (h : p.read s = .ok (q, t)) :
    ∃ n, t = .after (s.cursor.drop n) := by
  obtain ⟨-, ts, hprop, -⟩ := read_eq_ok.mp h
  obtain ⟨k, n, -, -, htoken⟩ := Layout.property_eq_ok hprop
  exact ⟨n, (Prod.mk.inj htoken).2⟩

private theorem Properties.read_trees {p q : Properties} (h : p.read s = .ok (q, t)) :
    q.trees ≠ [] := by
  obtain ⟨-, ts, hprop, rfl⟩ := read_eq_ok.mp h
  obtain ⟨k, n, -, -, htoken⟩ := Layout.property_eq_ok hprop
  obtain ⟨rfl, -⟩ := Prod.mk.inj htoken
  simp only
  split <;> simp

private theorem Properties.of_flowNode_nil {p : Properties}
    (h : flowNode.properties i s = .ok (p, t))
    (hp : p.trees = []) : t = s := by
  cases flowProperties_eq_ok.mp h with
  | none => rfl
  | some _ read =>
    cases read with
    | one read => exact absurd hp (read_trees read)
    | two _ _ second => exact absurd hp (read_trees second)

/-- A token that begins a row stands below the last one. -/
private theorem Layout.row_lt_after {p : Cursor} (h : (after p).fresh = true) :
    p.row < (after p).cursor.row :=
  (after_row_le p).2 h

/-- The properties of a node in brackets, none of which begins a row. -/
theorem rowProperties_of_flowNode {p : Properties} (hsettled : s.comments = []) (hwithin : s.within i = true)
    (h : flowNode.properties i s = .ok (p, t)) (hreach : t.atProperty = true → t.within i = true)
    (hrow : ∀ {p₁ t₁}, Properties.read {} s = .ok (p₁, t₁) → t₁.atProperty = true → p₁.read t₁ = .ok (p, t) →
      t₁.fresh = false) :
    rowProperties s = .ok (p, t) := by
  rw [rowProperties_eq_ok]
  cases flowProperties_eq_ok.mp h with
  | none unfit => exact .none (by simpa [hwithin] using unfit)
  | some fit read =>
    refine .some (Bool.and_eq_true_iff.mp fit).1 ?_
    rw [Layout.settle_eq hsettled]
    cases read with
    | one read ends =>
      refine .one read ?_
      cases hat : t.atProperty with
      | false => rfl
      | true => simp [hat, hreach hat] at ends
    | two first more second =>
      have hat := (Bool.and_eq_true_iff.mp more).1
      exact .two first (by simp [hat, hrow first hat second]) second

/-- The properties of a node in brackets whose content stands in the same row. -/
theorem rowProperties_of_row {p : Properties} (hsettled : s.comments = []) (hwithin : s.within i = true)
    (h : flowNode.properties i s = .ok (p, t)) (hreach : t.atProperty = true → t.within i = true)
    (hrow : t.cursor.row = s.cursor.row) : rowProperties s = .ok (p, t) := by
  refine rowProperties_of_flowNode hsettled hwithin h hreach ?_
  intro p₁ t₁ hread _ hread'
  obtain ⟨n, rfl⟩ := Properties.read_token hread
  obtain ⟨m, rfl⟩ := Properties.read_token hread'
  by_contra hfresh
  have hlt := Layout.row_lt_after (by simpa using hfresh)
  have hle := (Layout.Descends.after (Layout.after (s.cursor.drop n)) m).row
  have := s.cursor.row_le_drop n
  omega

/-- Tokens have been passed. -/
private theorem Adds.passed (h : Adds cs s [] ts t) (hsettled : s.comments = [])
    (hb : Begins s ts) :
    s.cursor.offset < t.cursor.offset := by
  have hlaid := h.laid s.cursor.offset (by simp [hsettled, Ordered])
  rw [Tree.leavesList_append, ordered_append_iff] at hlaid
  obtain ⟨mid, hts, hcomments⟩ := hlaid
  obtain ⟨l, hl, htoken, hstart⟩ := hb
  have hstop := (hts.of_mem hl).2.2.1
  have hlt := lt_of_isToken htoken
  have := hcomments.le
  omega

/-- The key of a pair in brackets that has its colon in its row, with a blank behind it, is one of a pair
without brackets. -/
theorem keyed_of_flowNode {key : List Tree} {endsItself : Bool} (hrules : rules.Sound cs) (hs : s.Sound cs)
    (hsettled : s.comments = []) (h : flowNode rules i s = .ok (key, endsItself, u))
    (hf : Tree.hasFaultList key = false) (hcolon : u.atMark ':' = true) (hrow : u.cursor.row = s.cursor.row) :
    Keyed rules s key u := by
  have hwithin := within_of_flowNode h
  have hadds := flowNode_adds hrules hs h hf
  have hfresh := hadds.1.descends.inRow hrow (hadds.1.passed hsettled hadds.2)
  cases flowNode_eq_ok.mp h with
  | bare properties some =>
    have hreach : u.within i = true := by simp [Layout.within, hfresh]
    exact ⟨i, _, u, rowProperties_of_row hsettled hwithin properties (fun _ => hreach) hrow, hcolon, hfresh,
      .inl ⟨by simpa using some, rfl, rfl⟩⟩
  | @wrapped p t _ content properties reach read alone =>
    obtain ⟨-, hpadds, hpbegins⟩ := flowNode_properties_grown hs properties
    obtain ⟨hcadds, -⟩ := flowContent_adds hrules hpadds.sound read (Properties.hasFault_of_wrap hf)
    have htrow : t.cursor.row = s.cursor.row :=
      Nat.le_antisymm (hcadds.descends.row.trans hrow.le) hpadds.descends.row
    have hcontent := flowContent_outside read (hrow.trans htrow.symm) hfresh hcolon
    have htfresh (hne : p.trees ≠ []) : t.fresh = false := by
      have hpbegins := hpbegins.resolve_left (by rintro ⟨rfl, -⟩; exact hne rfl)
      exact hpadds.descends.inRow htrow (hpadds.passed hsettled hpbegins)
    have hcomments : t.comments = [] := by
      by_cases hne : p.trees = []
      · rw [Properties.of_flowNode_nil properties hne, hsettled]
      · refine (hpadds.sound.inRow (htfresh hne)).resolve_left ?_
        rw [(flowContent_no_mark hcontent).2.2.2.2.2]
        exact Bool.false_ne_true
    refine ⟨i, p, t, rowProperties_of_row hsettled hwithin properties (fun _ => reach) htrow, hcolon, hfresh,
      .inr ⟨content, hcontent, ?_, fun hne => ⟨htfresh hne, ?_⟩, by rw [hcomments]⟩⟩
    · simp [isKeyColon, hcolon, hfresh, hrow]
    · simpa [hne] using alone

end Syntax

end YamlOutline
