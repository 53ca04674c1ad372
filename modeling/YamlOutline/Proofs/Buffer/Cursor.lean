import YamlOutline.Proofs.Buffer.LineEndings

/-! The cursor of a buffer stays on one of its rows. Each row becomes at least one line of the document
that takes the buffer over, so the cursor can go along. -/

namespace YamlOutline

namespace Buffer
variable {b : Buffer}

/-- The cursor is on one of the rows, or on the first if there is none. -/
def OnRow (b : Buffer) : Prop :=
  b.row ≤ b.rows.length - 1

theorem length_rows_ofText (text : String) :
    (ofText text).rows.length = (Text.pieces '\n' text.toList).length := by
  obtain ⟨lines, last, hp, _⟩ := Text.exists_join '\n' text.toList
  simp [ofText, hp]

private theorem OnRow.moveDown (h : b.OnRow) : b.moveDown.OnRow := by
  unfold Buffer.moveDown
  split
  · exact Nat.le_sub_one_of_lt (by assumption)
  · exact h

private theorem OnRow.moveRight (h : b.OnRow) : b.moveRight.OnRow := by
  unfold Buffer.moveRight
  split <;> exact h

private theorem OnRow.insert (h : b.OnRow) (c : Char) : (b.insert c).OnRow := by
  simpa [OnRow, Buffer.insert] using h

private theorem OnRow.breakRow (h : b.OnRow) : b.breakRow.OnRow := by
  simp only [OnRow, Buffer.breakRow, List.length_append, List.length_take, List.length_drop,
    List.length_cons, List.length_nil] at h ⊢
  omega

/-- Joining two rows leaves the cursor on the upper one. -/
private theorem OnRow.deleteBack (h : b.OnRow) : b.deleteBack.OnRow := by
  unfold Buffer.deleteBack
  simp only
  split
  · simpa [OnRow] using h
  · split
    · simp only [OnRow, List.length_append, List.length_take, List.length_drop, List.length_cons,
        List.length_nil] at h ⊢
      omega
    · exact h

/-- No key moves the cursor off the rows. -/
theorem OnRow.press (h : b.OnRow) (key : Key) : (b.press key).OnRow := by
  have hup : b.moveUp.OnRow := Nat.le_trans (Nat.sub_le ..) h
  unfold Buffer.press
  split
  case h_3 | h_4 | h_18 => exact h.moveRight
  case h_5 | h_6 | h_19 => exact hup
  case h_7 | h_8 | h_20 => exact h.moveDown
  case h_10 =>
    have hi : b.startInsert.OnRow := h
    exact hi.moveRight
  case h_12 | h_13 => exact h.insert _
  case h_14 => exact h.breakRow
  case h_15 => exact h.deleteBack
  -- The other keys change column and mode at most.
  all_goals exact h

/-- Between two rows there is a newline. -/
private theorem length_rows_le (b : Buffer) : b.rows.length ≤ b.text.toList.count '\n' + 1 := by
  have hm : (b.rows.map (Text.dropEndWhile Text.isReturn)).length = b.rows.length := List.length_map _
  rw [Buffer.text, String.toList_ofList]
  rcases List.eq_nil_or_concat (b.rows.map (Text.dropEndWhile Text.isReturn)) with he | ⟨init, last, he⟩
  · simp [he] at hm
    omega
  · rw [← hm, he, List.concat_eq_append, Text.intercalate_concat]
    have hj : init.length ≤ (Text.join ['\n'] init last).count '\n' := by
      clear he hm
      induction init with
      | nil => simp
      | cons l init ih =>
        simp only [Text.join_cons, List.count_append, List.count_singleton_self, List.length_cons]
        omega
    simpa using hj

end Buffer

private theorem count_endingOf (cs : List Char) : (endingOf cs).count '\n' = 1 := by
  unfold endingOf
  split <;> rfl

/-- Other line endings bring no newlines in and take none out. -/
private theorem count_withEnding (former cs : List Char) :
    (withEnding (endingOf former) cs).count '\n' = cs.count '\n' := by
  induction cs with
  | nil => rfl
  | cons c cs ih =>
    have hc : withEnding (endingOf former) (c :: cs) =
        (if c = '\n' then endingOf former else [c]) ++ withEnding (endingOf former) cs := rfl
    rw [hc, List.count_append, ih]
    split
    · rename_i h
      rw [count_endingOf, h, List.count_cons_self, Nat.add_comm]
    · rename_i h
      simp [List.count_cons_of_ne h]

/-- What is put in place of a document has no fewer newlines than what was edited. -/
private theorem count_le_count_matchLineEndings (text former : String) :
    text.toList.count '\n' ≤ (matchLineEndings text former).toList.count '\n' := by
  rw [matchLineEndings_eq rfl]
  split
  · rw [String.toList_ofList, List.count_append, count_withEnding]
    exact Nat.le_add_right _ _
  · rw [String.toList_ofList, count_withEnding]

/-- Each row of a buffer is a line of the document that takes it over. -/
theorem Buffer.OnRow.lt_lineCount {b : Buffer} (h : b.OnRow) {d : Document} {former : String}
    (ht : d.text = matchLineEndings b.text former) : b.row < d.lineCount := by
  have hr := b.length_rows_le
  have hc := count_le_count_matchLineEndings b.text former
  rw [Document.lineCount_eq, ht]
  unfold OnRow at h
  omega

end YamlOutline
