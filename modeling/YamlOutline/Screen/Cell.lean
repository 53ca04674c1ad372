import YamlOutline.Text.Glyph

/-!
The cells of a screen, and styled text written into a row of them. A glyph stands in one cell; where
it is wide, it hides the cells behind it.
-/

namespace YamlOutline.Screen

inductive Color where
  | cyan | gray
  deriving DecidableEq, Repr

structure Style where
  color : Option Color := none
  isBold : Bool := false
  isReversed : Bool := false
  deriving DecidableEq, Repr

structure Cell where
  text : String
  style : Style := {}
  deriving DecidableEq, Repr

namespace Cell

def blank : Cell := ⟨" ", {}⟩

def plain (text : String) : Cell := ⟨text, {}⟩

def reversed (c : Cell) : Cell :=
  { c with style := { c.style with isReversed := true } }

/-- The columns that the cell takes as it is shown. -/
def width (c : Cell) : Nat :=
  Text.width c.text.toList

/-- The cell with a glyph behind the text that it has. -/
private def join (text : String) (style : Style) (c : Cell) : Cell :=
  ⟨c.text ++ text, style⟩

end Cell

abbrev Row := List Cell

/-- A piece of a line with one style. -/
structure Run where
  text : String
  style : Style := {}
  deriving DecidableEq, Repr

namespace Run

def width (r : Run) : Nat :=
  Text.width r.text.toList

/-- The glyphs to show. Newlines are none. -/
def glyphs (r : Run) : List Text.Glyph :=
  (Text.glyphs r.text).filter (·.chars != ['\n'])

end Run

namespace Row

private def displayedFrom : (isBehindWide : Bool) → Row → Row
  | _, [] => []
  | isBehindWide, c :: r =>
    (if isBehindWide then .blank else c) :: displayedFrom (1 < c.width) r

/-- The row as it reaches an empty screen: the cell right behind a wide glyph stays blank. -/
def displayed (r : Row) : Row :=
  displayedFrom false r

private def textFrom : (hidden : Nat) → Row → List String
  | _, [] => []
  | n + 1, _ :: r => textFrom n r
  | 0, c :: r => c.text :: textFrom (c.width - 1) r

/-- What is read in a row. All that a wide glyph hides is left out. -/
def text (r : Row) : String :=
  String.join (textFrom 0 r)

/-- The row cut or filled up to a width. -/
def fill (filler : Cell) (width : Nat) (r : Row) : Row :=
  (r ++ List.replicate (width - r.length) filler).take width

/-- Writes glyphs from column `x` on, up to the first that does not fit before column `stop`. The
first glyph takes the cell at `start`, whatever its width; after it, glyphs without a column join
the glyph before them, and the first with a column joins those at `start`. -/
private def writeGlyphs (start stop : Nat) (style : Style) :
    (x : Nat) → (isFirst : Bool) → List Text.Glyph → Row → Row
  | _, _, [], row => row
  | x, isFirst, g :: gs, row =>
    if stop < x + g.width then row
    else
      let row :=
        if isFirst then row.set x ⟨g.text, style⟩
        else if x = start then row.modify x (Cell.join g.text style)
        else if g.width = 0 then row.modify (x - 1) (Cell.join g.text style)
        else row.set x ⟨g.text, style⟩
      let row := row.mapIdx fun i c => if x < i && i < x + g.width then .blank else c
      writeGlyphs start stop style (x + g.width) false gs row

/-- Writes a line over the first `width` cells of a row. A run begins where the text of those before
it ends, and one whose text takes no column is left out. -/
def write (row : Row) (width : Nat) (runs : List Run) : Row :=
  let (_, row) := runs.foldl
    (fun (x, row) r =>
      if r.width = 0 || width ≤ x then (x, row)
      else (x + r.width, writeGlyphs x width r.style x true r.glyphs row))
    (0, row)
  row

/-- A row with one line. -/
def ofLine (width : Nat) (runs : List Run) : Row :=
  Row.write (List.replicate width .blank) width runs

/-- The cells of glyphs side by side, up to the first that does not fit. -/
def placed (room : Nat) : List (Text.Glyph × Style) → Row
  | [] => []
  | (g, style) :: gs =>
    if g.width ≤ room then
      ⟨g.text, style⟩ :: List.replicate (g.width - 1) .blank ++ placed (room - g.width) gs
    else []

/-- The cells of a line of flowing text. Glyphs without a column are left out, and those that are
wider than the whole row. -/
def paragraph (width : Nat) (runs : List Run) : Row :=
  placed width <| (runs.flatMap fun r => r.glyphs.map (·, r.style)).filter fun (g, _) =>
    0 < g.width && g.width ≤ width

end Row

end YamlOutline.Screen
