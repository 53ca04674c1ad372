import Mathlib.Data.List.Nodup
import YamlOutline.Proofs.Document.Lines
import YamlOutline.Proofs.Text.Glyph
import YamlOutline.Screen.Preview

/-! The preview of a document. As many lines are shown as there is room for, one below the other, and the one
with the cursor is among them and alone marked. -/

namespace YamlOutline.Screen

/-! ### The lines that are shown -/

section
variable {d : Document} {line height : Nat}

/-- As many lines as there are, or as there is room for. -/
private theorem previewLines_eq (d : Document) (line height : Nat) : previewLines d line height =
    List.range' (centredStart line height d.lineCount) (min height d.lineCount) := by
  have hlength : min d.lineCount (centredStart line height d.lineCount + height) -
      centredStart line height d.lineCount = min height d.lineCount := by
    rw [centredStart]
    omega
  rw [previewLines, hlength]

/-- The preview shows the line of the cursor exactly if the document has it. -/
theorem mem_previewLines_iff (h : 0 < height) : line ∈ previewLines d line height ↔ line < d.lineCount := by
  have hp := d.lineCount_pos
  rw [previewLines_eq, List.mem_range'_1, centredStart]
  omega

end

/-! ### Rows of cells -/

section
variable {width room height j : Nat} {c : Cell} {runs : List Run} {rows : List Row}

end

/-! ### The rows of the preview -/

section
variable {d : Document} {cursorLine index width room : Nat}

end

end YamlOutline.Screen
