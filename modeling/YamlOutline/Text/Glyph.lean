import YamlOutline.Text.Cluster
import YamlOutline.Text.Columns

/-!
Glyphs: the clusters of a text with the columns that they take. Some take none.
-/

namespace YamlOutline.Text

/-- A cluster with the columns that it takes. -/
structure Glyph where
  chars : List Char
  width : Nat
  deriving DecidableEq, Repr

def Glyph.text (g : Glyph) : String :=
  .ofList g.chars

/-- The glyphs of a text. -/
def glyphs (s : String) : List Glyph :=
  (clusters s.toList).map fun cs => ⟨cs, width cs⟩

end YamlOutline.Text
