import YamlOutline.Proofs.Buffer.Resaving

/-! What is committed shows the rows of the buffer. The text that takes the place of a document is joined
from the rows without the carriage returns at their ends, with one line ending behind each of them, and an
empty row follows where the document ended in a newline and the rows do not. -/

namespace YamlOutline
open Text (join pieces dropEndWhile isReturn)
open matchLineEndings (hasCrLf)
variable {cs pre post last : List Char} {lines : List (List Char)}

private theorem hasCrLf_iff : hasCrLf cs = true ↔ ['\r', '\n'] <:+: cs := by
  constructor
  · intro h
    induction cs with
    | nil => cases h
    | cons c cs ih =>
      rw [hasCrLf_cons, Bool.or_eq_true, decide_eq_true_eq] at h
      rcases h with ⟨rfl, hc⟩ | h
      · obtain ⟨r, rfl⟩ := List.head?_eq_some_iff.mp hc
        exact ⟨[], r, rfl⟩
      · exact List.infix_cons (ih h)
  · rintro ⟨before, behind, rfl⟩
    rw [List.append_assoc]
    exact hasCrLf_append before behind

/-- What the line ending of a former text has before its newline. -/
def returnOf (cs : List Char) : List Char :=
  if hasCrLf cs then ['\r'] else []

private theorem endingOf_eq (cs : List Char) : endingOf cs = returnOf cs ++ ['\n'] := by
  unfold endingOf returnOf
  split <;> rfl

private theorem newline_notMem_returnOf (cs : List Char) : '\n' ∉ returnOf cs := by
  unfold returnOf
  split <;> decide

/-- The rest of a line ending may count as the end of its line. -/
private theorem join_endingOf (cs : List Char) (lines : List (List Char)) (last : List Char) :
    join (endingOf cs) lines last = join ['\n'] (lines.map (· ++ returnOf cs)) last := by
  simp [join, endingOf_eq, List.flatMap_map]

private theorem getLast?_join_iff (hl : '\n' ∉ last) (cs : List Char) :
    (join (endingOf cs) lines last).getLast? = some '\n' ↔ lines ≠ [] ∧ last = [] := by
  constructor
  · intro h
    have hlast : last = [] := by
      by_contra hne
      rw [join, List.getLast?_append_of_ne_nil _ hne] at h
      exact hl (List.mem_of_getLast? h)
    refine ⟨?_, hlast⟩
    rintro rfl
    rw [Text.join_nil, hlast] at h
    cases h
  · rintro ⟨hne, rfl⟩
    obtain ⟨init, l, rfl⟩ := (List.eq_nil_or_concat lines).resolve_left hne
    simp [join, endingOf_getLast?]

/-- Before a newline of a joined text stands the line that it ends. -/
private theorem getLast?_before_newline (h : ∀ l ∈ lines, '\n' ∉ l) (hl : '\n' ∉ last)
    (he : join ['\n'] lines last = pre ++ '\n' :: post) :
    ∃ l ∈ lines, pre.getLast? = some '\r' ↔ l.getLast? = some '\r' := by
  induction lines generalizing pre with
  | nil =>
    rw [Text.join_nil] at he
    exact absurd (by simp [he]) hl
  | cons l lines ih =>
    obtain ⟨hl', hn⟩ := List.forall_mem_cons.mp h
    rw [Text.join_cons, List.append_assoc, List.singleton_append] at he
    rcases List.append_eq_append_iff.mp he with ⟨rest, rfl, hrest⟩ | ⟨rest, rfl, hrest⟩
    · cases rest with
      | nil => exact ⟨l, List.mem_cons_self, by rw [List.append_nil]⟩
      | cons c rest =>
        -- The newline stands behind this line and its line ending.
        obtain ⟨rfl, hmore⟩ := List.cons.inj hrest
        obtain ⟨k, hk, hlast⟩ := ih hn hmore
        refine ⟨k, List.mem_cons_of_mem l hk, ?_⟩
        rw [← hlast, List.getLast?_append, List.getLast?_cons]
        cases rest.getLast? <;> simp
    · cases rest with
      | nil => exact ⟨pre ++ [], List.mem_cons_self, by rw [List.append_nil]⟩
      | cons c rest =>
        obtain ⟨rfl, -⟩ := List.cons.inj hrest
        exact absurd (by simp) hl'

/-- What takes the place of a former text is joined from the lines of the new one by the line ending of the
former, and an unfinished last line is finished if the former's was. -/
private theorem matchLineEndings_join {text : String} (former : String)
    (he : text.toList = join ['\n'] lines last)
    (h : ∀ l ∈ lines, '\n' ∉ l) (hl : '\n' ∉ last) : ∃ lines' last',
    lines' ++ [last'] = lines ++ [last] ++
        (if former.toList.getLast? = some '\n' ∧ text.toList.getLast? ≠ some '\n' then [[]] else []) ∧
      (matchLineEndings text former).toList = join (endingOf former.toList) lines' last' := by
  have hb : withEnding (endingOf former.toList) text.toList = join (endingOf former.toList) lines last := by
    rw [he]
    exact withEnding_join _ h hl
  -- Whether the last line is finished does not depend on the line ending.
  have hends : (join (endingOf former.toList) lines last).getLast? = some '\n' ↔
      text.toList.getLast? = some '\n' := by
    have hplain : endingOf [] = ['\n'] := rfl
    rw [getLast?_join_iff hl, he, ← hplain, getLast?_join_iff hl]
  rw [matchLineEndings_eq hb]
  by_cases hadd : former.toList.getLast? = some '\n' ∧ text.toList.getLast? ≠ some '\n'
  · rw [if_pos hadd, if_pos (by simpa [hends] using hadd), String.toList_ofList]
    exact ⟨lines ++ [last], [], rfl, by simp [join]⟩
  · rw [if_neg hadd, if_neg (by simpa [hends] using hadd), String.toList_ofList]
    exact ⟨lines, last, by simp, rfl⟩

/-- The text of a buffer is joined from its rows without the carriage returns at their ends. -/
private theorem Buffer.exists_text_eq_join {b : Buffer} (hb : b.rows ≠ []) : ∃ lines last,
    b.rows.map (dropEndWhile isReturn) = lines ++ [last] ∧ b.text.toList = join ['\n'] lines last := by
  have hne : b.rows.map (dropEndWhile isReturn) ≠ [] := by simpa using hb
  obtain ⟨lines, last, he⟩ := (List.eq_nil_or_concat _).resolve_left hne
  rw [List.concat_eq_append] at he
  refine ⟨lines, last, he, ?_⟩
  rw [Buffer.text, String.toList_ofList, he, Text.intercalate_concat]

private theorem dropEndWhile_append_returnOf (l cs : List Char) :
    dropEndWhile isReturn (l ++ returnOf cs) = dropEndWhile isReturn l := by
  unfold returnOf
  split
  · rw [Text.dropEndWhile_eq_rdropWhile, List.rdropWhile_concat_pos _ _ _ (by decide),
      ← Text.dropEndWhile_eq_rdropWhile]
  · rw [List.append_nil]

/-- What is committed is what the buffer shows: the lines of the committed text and the rows of the buffer
are the same but for carriage returns at their ends, with an empty line more exactly if the former text
ended in a newline and that of the buffer does not. All newlines of the committed text have a carriage
return before them if some newline of the former text has, and none has if not. -/
theorem Buffer.committed_lines_are_rows (b : Buffer) (former : String) (hb : b.rows ≠ [])
    (hn : b.Lacks '\n') :
    (pieces '\n' (matchLineEndings b.text former).toList).map (dropEndWhile isReturn) =
        b.rows.map (dropEndWhile isReturn) ++
          (if former.toList.getLast? = some '\n' ∧ b.text.toList.getLast? ≠ some '\n' then [[]] else []) ∧
      ∀ pre post, (matchLineEndings b.text former).toList = pre ++ '\n' :: post →
        (pre.getLast? = some '\r' ↔ ['\r', '\n'] <:+: former.toList) := by
  obtain ⟨lines, last, hrows, htext⟩ := exists_text_eq_join hb
  have hbare : ∀ l ∈ lines ++ [last], '\n' ∉ l ∧ Text.returns l = 0 := by
    rw [← hrows]
    intro l hl
    obtain ⟨row, hm, rfl⟩ := List.mem_map.mp hl
    exact ⟨notMem_dropEndWhile (hn row hm), Text.returns_dropEndWhile row⟩
  obtain ⟨lines', last', hsame, hcommitted⟩ := matchLineEndings_join former htext
    (fun l hl => (hbare l (by simp [hl])).1) (hbare last (by simp)).1
  have hbare' : ∀ l ∈ lines' ++ [last'], '\n' ∉ l ∧ Text.returns l = 0 := by
    rw [hsame]
    intro l hl
    rcases List.mem_append.mp hl with hl | hl
    · exact hbare l hl
    · split at hl
      · obtain rfl := List.mem_singleton.mp hl
        exact ⟨List.not_mem_nil, rfl⟩
      · cases hl
  have hended : ∀ l ∈ lines'.map (· ++ returnOf former.toList), '\n' ∉ l := by
    intro l hl
    obtain ⟨l', hm, rfl⟩ := List.mem_map.mp hl
    simpa [newline_notMem_returnOf] using (hbare' l' (by simp [hm])).1
  have hlast := (hbare' last' (by simp)).1
  rw [hcommitted, join_endingOf]
  constructor
  · have hkept : ∀ l ∈ lines' ++ [last'], dropEndWhile isReturn l = l :=
      fun l hl => Text.dropEndWhile_eq_self_iff.mpr (hbare' l hl).2
    calc (pieces '\n' (join ['\n'] (lines'.map (· ++ returnOf former.toList)) last')).map (dropEndWhile isReturn)
        = (lines'.map (· ++ returnOf former.toList) ++ [last']).map (dropEndWhile isReturn) := by
          rw [Text.pieces_join hended hlast]
      _ = (lines' ++ [last']).map (dropEndWhile isReturn) := by
          simp [dropEndWhile_append_returnOf]
      _ = lines' ++ [last'] := (List.map_congr_left hkept).trans (List.map_id' _)
      _ = _ := by rw [hsame, hrows]
  · intro pre post he
    obtain ⟨l, hl, hreturn⟩ := getLast?_before_newline hended hlast he
    obtain ⟨l', hm, rfl⟩ := List.mem_map.mp hl
    rw [hreturn, ← hasCrLf_iff, Text.getLast?_eq_return_iff, returnOf]
    have hzero := (hbare' l' (by simp [hm])).2
    cases hasCrLf former.toList with
    | false => simpa using hzero
    | true =>
      have hone : (l' ++ ['\r']).getLast? = some '\r' := by simp
      simpa using Text.getLast?_eq_return_iff.mp hone

/-- Two rows, one with a carriage return in it and one at its end, in place of a text with another line
ending and a newline at its end. -/
theorem Buffer.committed_lines_are_rows_with_returns :
    (⟨["a\rb\r".toList, "c".toList], 0, 0, .normal, 0⟩ : Buffer).rows ≠ [] ∧
      (⟨["a\rb\r".toList, "c".toList], 0, 0, .normal, 0⟩ : Buffer).Lacks '\n' ∧
      (pieces '\n' (matchLineEndings (⟨["a\rb\r".toList, "c".toList], 0, 0, .normal, 0⟩ : Buffer).text
          "x\r\ny\n").toList).map (dropEndWhile isReturn) = ["a\rb".toList, "c".toList, []] := by
  have hb : (⟨["a\rb\r".toList, "c".toList], 0, 0, .normal, 0⟩ : Buffer).rows ≠ [] := by decide
  have hn : (⟨["a\rb\r".toList, "c".toList], 0, 0, .normal, 0⟩ : Buffer).Lacks '\n' := by
    unfold Buffer.Lacks
    decide
  refine ⟨hb, hn, (committed_lines_are_rows _ "x\r\ny\n" hb hn).1.trans ?_⟩
  decide

end YamlOutline
