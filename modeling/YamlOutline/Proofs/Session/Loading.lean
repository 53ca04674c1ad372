import YamlOutline.Proofs.Buffer.Cursor
import YamlOutline.Session.Basic

/-! The rows of a buffer that was just loaded are the lines that the preview shows, under the same numbers.
So the cursor, which goes from one to the other as a number, stays on its line. -/

namespace YamlOutline
open Text (slice? dropEndWhile isReturn)
variable {d : Document}

/-- A line is the piece of the text with its number, and the index gives it as a slice of the text. -/
private theorem Document.exists_line {i : Nat} (h : i < d.lineCount) : ∃ start piece,
    d.lineStarts[i]? = some start ∧ slice? d.text.toList start (d.lineStop i) = some piece ∧
      (d.text.toList.splitOn '\n')[i]? = some piece ∧
      d.line i = .ofList (dropEndWhile isReturn piece) := by
  rw [lineCount_eq_length] at h
  have hp := List.getElem?_eq_getElem h
  obtain ⟨start, hs, hl⟩ := exists_slice hp
  refine ⟨start, _, hs, hl, ?_, ?_⟩
  · rw [← Text.pieces_eq_splitOn, hp]
  · rw [line_eq, hp, Option.elim_some]

private theorem Document.line_of_le {i : Nat} (h : d.lineCount ≤ i) : d.line i = "" := by
  rw [lineCount_eq_length] at h
  rw [line_eq, List.getElem?_eq_none h, Option.elim_none]

namespace Buffer

private theorem length_rows_ofText_eq (d : Document) :
    (ofText d.text).rows.length = d.lineCount := by
  rw [length_rows_ofText, d.lineCount_eq_length]

/-- A row is the line with its number. -/
private theorem exists_row {i : Nat} (h : i < d.lineCount) :
    ∃ row, (ofText d.text).rows[i]? = some row ∧
    String.ofList (dropEndWhile isReturn row) = d.line i := by
  have hi : i < (ofText d.text).rows.length := length_rows_ofText_eq d ▸ h
  refine ⟨_, List.getElem?_eq_getElem hi, ?_⟩
  have hrow := congrArg (·[i]?) (rows_ofText d)
  simpa [hi, h] using hrow

/-- The text of a buffer just loaded is joined from the lines of the document. -/
private theorem text_ofText_eq_lines (d : Document) :
    (ofText d.text).text = "\n".intercalate ((List.range d.lineCount).map d.line) := by
  have hrow (row : List Char) : (String.ofList (dropEndWhile isReturn row)).toList =
      dropEndWhile isReturn row := String.toList_ofList
  rw [← String.toList_inj, String.toList_intercalate, ← rows_ofText, List.map_map]
  simp [Buffer.text, Function.comp_def, hrow]

end Buffer

/-- The lines of a document are the pieces of its text between newlines, each without the carriage returns
at its end, and no look-up of one leaves the index or the text. A buffer loaded from the document has a row
for every line and no others, with the cursor on one of them, and joining them gives the lines joined. -/
theorem Session.loaded_rows_are_lines (d : Document) :
    d.lineCount = d.text.toList.count '\n' + 1 ∧
      (∀ i, d.line? i = some (d.line i)) ∧
      (∀ i, i < d.lineCount → ∃ start piece, d.lineStarts[i]? = some start ∧
        slice? d.text.toList start (d.lineStop i) = some piece ∧
        (d.text.toList.splitOn '\n')[i]? = some piece ∧
        d.line i = .ofList (dropEndWhile isReturn piece)) ∧
      (∀ i, d.lineCount ≤ i → d.line i = "") ∧
      ∀ s : Session, s.workspace.activeDocument = some d →
        ∃ b, s.enterEditor = { s with buffer := some b, view := .editor } ∧
          b.rows.length = d.lineCount ∧
          (∀ i, i < d.lineCount → ∃ row, b.rows[i]? = some row ∧
            String.ofList (dropEndWhile isReturn row) = d.line i) ∧
          b.row < b.rows.length ∧
          b.text = "\n".intercalate ((List.range d.lineCount).map d.line) := by
  refine ⟨d.lineCount_eq, ?_, fun i => Document.exists_line, fun i => Document.line_of_le, ?_⟩
  · intro i
    rw [d.line_eq, d.line?_eq]
  · intro s hd
    refine ⟨{ Buffer.ofText d.text with
      row := min s.workspace.cursor.line (d.lineCount - 1), column := s.workspace.cursor.column },
      ?_, Buffer.length_rows_ofText_eq d, fun i => Buffer.exists_row, ?_, Buffer.text_ofText_eq_lines d⟩
    · simp only [enterEditor, hd]
    · have hpos := d.lineCount_pos
      simp only [Buffer.length_rows_ofText_eq]
      omega

/-- A text with a line ending of its own in the first line, characters of several bytes in the second, and
nothing in the last, with the cursor beyond it. -/
theorem Session.loaded_rows_are_lines_at_end :
    ∃ (s : Session) (d : Document) (b : Buffer), s.workspace.activeDocument = some d ∧ d.text = "a:\r\n  é: ü\n" ∧
      s.workspace.cursor.line = 7 ∧ s.enterEditor = { s with buffer := some b, view := .editor } ∧
      b.rows.length = 3 ∧ b.row < b.rows.length ∧ b.text = "a:\n  é: ü\n" := by
  let d : Document := ⟨"a.yaml", "yaml", "a:\r\n  é: ü\n"⟩
  let s : Session :=
    new (.ofFolder [] []) {} { documents := [d], active := some 0, cursor := ⟨7, 0⟩, extensions := [] }
  have hd : s.workspace.activeDocument = some d := rfl
  obtain ⟨-, -, -, -, hload⟩ := loaded_rows_are_lines d
  obtain ⟨b, he, hlength, -, hrow, ht⟩ := hload s hd
  refine ⟨s, d, b, hd, rfl, rfl, he, hlength.trans (by decide), hrow, ht.trans (by decide +kernel)⟩

end YamlOutline
