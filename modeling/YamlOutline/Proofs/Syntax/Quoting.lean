import YamlOutline.Proofs.Reparse.InRow

/-! Writing a text between quotes, and the token that such a text is read as: it ends with the quote
that was written last. -/

namespace YamlOutline.Syntax

namespace Quoted
variable {style : Style} {floor n : Nat} {c : Char} {s r behind : List Char} {mode : Mode}

/-- Whether a character would not stand for itself between quotes of the style. -/
def isSpecial : Style → Char → Bool
  | .single, c => c == '\''
  | .double, c => c == '\\' || c == '"'

/-- What takes its special meaning from the character behind it. -/
def Style.guard : Style → Char
  | .single => '\''
  | .double => '\\'

/-- How a character is written between quotes. -/
def written (style : Style) (c : Char) : List Char :=
  if isSpecial style c then [style.guard, c] else [c]

/-- The text in quotes. -/
def write (style : Style) (s : List Char) : List Char :=
  style.quote :: s.flatMap (written style) ++ [style.quote]

/-- The printable characters of ASCII. -/
def isAscii (c : Char) : Bool :=
  0x20 ≤ c.toNat && c.toNat ≤ 0x7E

private theorem not_break_of_isAscii (hc : isAscii c = true) : isBreak c = false := by
  rw [Bool.eq_false_iff]
  intro h
  obtain rfl | rfl : c = '\n' ∨ c = '\r' := by simpa [isBreak] using h
  all_goals cases hc

/-! ### The token -/

/-- Between the quotes, as long as the row of the first one goes on. -/
def Mode.inRow : Mode → Bool
  | .run => true
  | .between fresh _ _ => !fresh
  | _ => false

private theorem begin_plain (hc : isAscii c = true) (hplain : isSpecial style c = false)
    (r : List Char) :
    begin style c r false = some .run := by
  have hquotable : isQuotable c = true := by
    simp only [isAscii, Bool.and_eq_true, decide_eq_true_eq] at hc
    simp [isQuotable, hc.1]
  cases style <;> simp_all [isSpecial, begin]

private theorem ends_plain (hplain : isSpecial style c = false) (r : List Char) :
    ends style c r = false := by
  cases style <;> simp_all [isSpecial, ends]

private theorem opens_of_inRow (hm : mode.inRow = true) (row : isBreak c = false)
    (white : isWhite c = false) :
    Opens floor c false mode false := by
  cases mode with
  | run => exact .run row
  | between fresh leading tabbed =>
    simp only [isWhite, Bool.or_eq_false_iff, beq_eq_false_iff_ne] at white
    have indented : isIndented floor (.between fresh leading tabbed) = true := Bool.or_eq_true_iff.mpr (.inl hm)
    exact .between row white.1 white.2 indented
  | escape | hex | doubled | taken => cases hm

private theorem Run.space (hm : mode.inRow = true)
    (h : ∀ next : Mode, next.inRow = true → Run style floor r next false n) :
    Run style floor (' ' :: r) mode false (n + 1) := by
  cases mode with
  | run =>
    have hspecial : isSpecial style ' ' = false := by cases style <;> rfl
    exact .step (.piece (.run rfl) (ends_plain hspecial r) (begin_plain rfl hspecial r)) (h .run rfl)
  | between fresh leading tabbed => exact .step (.space rfl) (h _ hm)
  | escape | hex | doubled | taken => cases hm

private theorem Run.guarded (hspecial : isSpecial style c = true) (hm : mode.inRow = true)
    (h : Run style floor r between false n) : Run style floor (style.guard :: c :: r) mode false (n + 2) := by
  cases style with
  | single =>
    obtain rfl : c = '\'' := by simpa [isSpecial] using hspecial
    exact .step (.piece (opens_of_inRow hm rfl rfl) rfl rfl) (.step .doubled h)
  | double =>
    have hbegin : begin .double '\\' (c :: r) false = some .escape := rfl
    refine .step (.piece (opens_of_inRow hm rfl rfl) rfl hbegin) (.step ?_ h)
    obtain rfl | rfl : c = '\\' ∨ c = '"' := by simpa [isSpecial] using hspecial
    · exact .simple rfl rfl
    · exact .simple rfl rfl

/-- A character in the way it is written is passed. -/
private theorem Run.written (hc : isAscii c = true) (hm : mode.inRow = true)
    (h : ∀ next : Mode, next.inRow = true → Run style floor r next false n) :
    Run style floor (written style c ++ r) mode false (n + (written style c).length) := by
  by_cases hspecial : isSpecial style c = true
  · rw [show Quoted.written style c = [style.guard, c] from if_pos hspecial]
    exact .guarded hspecial hm (h between rfl)
  have hplain : isSpecial style c = false := Bool.eq_false_iff.mpr hspecial
  rw [show Quoted.written style c = [c] from if_neg hspecial]
  by_cases hspace : c = ' '
  · rw [hspace]
    exact .space hm h
  have hwhite : isWhite c = false := by
    have htab : c ≠ '\t' := by
      rintro rfl
      cases hc
    simp [isWhite, hspace, htab]
  have hopens : Opens floor c false mode false := opens_of_inRow hm (not_break_of_isAscii hc) hwhite
  exact .step (.piece hopens (ends_plain hplain r) (begin_plain hc hplain r)) (h .run rfl)

/-- A quote behind the text ends it. One single quote right behind another one would not. -/
private theorem Run.ended (hm : mode.inRow = true)
    (hbehind : style = .single → behind.head? ≠ some '\'') :
    Run style floor (style.quote :: behind) mode false 1 := by
  cases style with
  | single => exact .quote (opens_of_inRow hm rfl rfl) (by simpa [ends, Style.quote] using hbehind rfl)
  | double => exact .quote (opens_of_inRow hm rfl rfl) rfl

private theorem run_body (hs : ∀ c ∈ s, isAscii c = true) (hm : mode.inRow = true)
    (hbehind : style = .single → behind.head? ≠ some '\'') :
    Run style floor (s.flatMap (written style) ++ style.quote :: behind) mode false
      (1 + (s.flatMap (written style)).length) := by
  induction s generalizing mode with
  | nil => exact .ended hm hbehind
  | cons c s ih =>
    obtain ⟨hc, hs⟩ := List.forall_mem_cons.mp hs
    rw [List.flatMap_cons, List.append_assoc, List.length_append, Nat.add_comm (written style c).length, ← Nat.add_assoc]
    exact .written hc hm fun next hnext => ih hs hnext

/-- The text in quotes is one token. -/
private theorem length_write (floor : Nat) (hs : ∀ c ∈ s, isAscii c = true)
    (hbehind : style = .single → behind.head? ≠ some '\'') :
    length style floor (write style s ++ behind) = .ok (write style s).length := by
  refine length_eq_ok.mpr ⟨1 + (s.flatMap (written style)).length, ?_, ?_⟩
  · simp only [write, List.length_cons, List.length_append, List.length_nil]
    omega
  · rw [write, List.append_assoc, List.cons_append, List.drop_succ_cons, List.drop_zero, List.singleton_append]
    exact run_body hs rfl hbehind

theorem not_break_of_mem_write (style : Style) (hs : ∀ c ∈ s, isAscii c = true) :
    ∀ c ∈ write style s, isBreak c = false := by
  have hquote : isBreak style.quote = false ∧ isBreak style.guard = false := by cases style <;> exact ⟨rfl, rfl⟩
  intro c hc
  simp only [write, List.mem_append, List.mem_cons, List.mem_flatMap, List.not_mem_nil, or_false] at hc
  obtain (rfl | ⟨d, hd, hc⟩) | rfl := hc
  · exact hquote.1
  · have hd := not_break_of_isAscii (hs d hd)
    unfold written at hc
    split at hc
    · obtain rfl | rfl : c = style.guard ∨ c = d := by simpa using hc
      · exact hquote.2
      · exact hd
    · exact List.mem_singleton.mp hc ▸ hd
  · exact hquote.1

end Quoted

open Quoted (write isAscii)
variable {s : Layout} {style : Quoted.Style} {v piece : List Char}

/-- The text in quotes, with blanks behind it, as the next token. -/
theorem flowContent_quoted (rules : Rules) (inFlow : Bool) (i : Indent) (n : Nat) (hv : ∀ c ∈ v, isAscii c = true)
    (hs : s.rest = write style v ++ (List.replicate n ' ' ++ piece)) (hpiece : atToken piece = true)
    (hbehind : style = .single → (List.replicate n ' ' ++ piece).head? ≠ some '\'') :
    ∃ span u, flowContent rules inFlow i s = .ok (.leaf style.kind span, u) ∧ u.Stands piece ∧
      u.cursor.row = s.cursor.row ∧ ∀ cs, s.cursor.In cs →
        Text.slice? cs span.start span.stop = some (write style v) ∧ u.cursor.In cs := by
  have hrow : (s.cursor.drop (write style v).length).row = s.cursor.row := by
    refine Cursor.row_drop_of_no_break ?_
    rw [show s.cursor.rest = _ from hs, List.take_left]
    exact Quoted.not_break_of_mem_write style hv
  obtain ⟨hstands, hafter⟩ := Layout.after_drop_stands (write style v) n hs hpiece
  have hquoted : quoted style i s = .ok (.leaf style.kind (s.cursor.spanOf (write style v).length),
      .after (s.cursor.drop (write style v).length)) :=
    quoted_eq_ok.mpr ⟨_, by rw [hs, Quoted.length_write i.floor hv hbehind], rfl, rfl⟩
  have hat : s.at? style.quote = true := by
    rw [Layout.at?, hs]
    exact beq_self_eq_true (some style.quote)
  refine ⟨s.cursor.spanOf (write style v).length, _, ?_, hstands, hafter.trans hrow, fun cs hin => ⟨?_, ?_⟩⟩
  · rw [flowContent_of_quote style hat, hquoted]
  · rw [Cursor.spanOf, hin.slice, show s.cursor.rest = _ from hs, List.take_left]
  · exact (Layout.after_sound (hin.drop _)).inText

theorem write_eq_cons (style : Quoted.Style) (v : List Char) :
    ∃ r, write style v = style.quote :: r ∧ isOpening style.quote = true := by
  cases style <;> exact ⟨_, rfl, rfl⟩

private theorem atToken_write (style : Quoted.Style) (v : List Char) :
    atToken (write style v) = true := by
  cases style <;> rfl

/-- The only pair of a mapping, a text in quotes on either side of its colon. -/
theorem nodeHere_pair {style' : Quoted.Style} {w : List Char} (levels : Nat) (hv : ∀ c ∈ v, isAscii c = true)
    (hw : ∀ c ∈ w, isAscii c = true) (hs : Opening 0 (write style v ++ ':' :: ' ' :: write style' w) s) :
    ∃ key colon value u, nodeHere (.ofDepth (levels + 1)) .top false false {} s =
      .ok ([.node .blockNode [.node .blockMapping [.node .blockMappingPair [.node .flowNode [.leaf style.kind key],
        .leaf .valueMark colon, .node .flowNode [.leaf style'.kind value]]]]], u) ∧ u.Stands [] ∧
      ∀ cs, s.cursor.In cs → Text.slice? cs key.start key.stop = some (write style v) ∧
        Text.slice? cs value.start value.stop = some (write style' w) := by
  obtain ⟨r', hr', hopen'⟩ := write_eq_cons style' w
  obtain ⟨key, t, hkey, ht, hrow, hkeyIn⟩ :=
    flowContent_quoted (.ofDepth (levels + 1)) false .top 0 hv hs.rest rfl (by simp)
  obtain ⟨u, hcolon, (hu : u.Stands (write style' w)), huIn⟩ := Layout.token_stands [':'] 1 ht.rest ht.comments
    (atToken_write style' w) .valueMark
  have hrest : u.rest = write style' w ++ (List.replicate 0 ' ' ++ []) := by simp [hu.rest]
  obtain ⟨value, x, hvalue, hx, -, hvalueIn⟩ :=
    flowContent_quoted (.ofDepth levels) false (Indent.top.nested 0 false) 0 hw hrest rfl (by simp)
  have hblock : blockValue (.ofDepth levels) (Indent.top.nested 0 false) false true {} u =
      .ok ([.node .flowNode [.leaf style'.kind value]], x) :=
    blockValue_of_stands hopen' (hr' ▸ hu) rfl rfl hvalue
  have hpairs : (Rules.ofDepth (levels + 1)).pairs (Indent.top.nested 0 false) x = .ok ([], x) := by
    change blockPairs _ _ _ = _
    have hcloses : x.closes (Indent.top.nested 0 false) = true := by simp [Layout.closes, Layout.atEnd, hx.rest]
    rw [blockPairs, if_pos hcloses, hx.comments, hx.settle]
    rfl
  have hpair : keyValue (.ofDepth (levels + 1)) (Indent.top.nested 0 false) [.node .flowNode [.leaf style.kind key]] t =
      .ok ([.node .blockMappingPair [.node .flowNode [.leaf style.kind key],
        .leaf .valueMark (t.cursor.spanOf 1), .node .flowNode [.leaf style'.kind value]]], x) := by
    have htoken : t.token .valueMark 1 = ([.leaf .valueMark (t.cursor.spanOf 1)], u) := hcolon
    exact keyValue_eq_ok.mpr ⟨_, by rw [htoken]; exact hblock, by rw [htoken]; rfl⟩
  have hisColon : isKeyColon t s.cursor.row = true := by
    simp [isKeyColon, ht.atMark_eq, ht.fresh, hrow, atGap, isWhite]
  refine ⟨key, t.cursor.spanOf 1, value, x, ?_, hx, fun cs hin => ?_⟩
  · have hmapping := mapping_eq_ok.mpr ⟨_, x, [], hpair, hpairs, rfl⟩
    rw [← hs.column] at hmapping
    have hnode : NodeHere (.ofDepth (levels + 1)) .top false false {} s _ x :=
      .keyed hkey hisColon (by simp [hs.fresh, hs.tabbed]) hmapping
    rw [hs.comments] at hnode
    exact nodeHere_eq_ok.mpr hnode
  · obtain ⟨hslice, hin⟩ := hkeyIn cs hin
    exact ⟨hslice, (hvalueIn cs (huIn cs hin)).1⟩

end YamlOutline.Syntax
