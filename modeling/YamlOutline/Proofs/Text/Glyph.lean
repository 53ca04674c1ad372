import Mathlib.Data.Nat.Basic
import YamlOutline.Text.Glyph

/-! Glyphs of graphic characters. Such a character is a glyph of its own before another one, and takes one column. -/

namespace YamlOutline.Text
variable {c d : Char}

end YamlOutline.Text
