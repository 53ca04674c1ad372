import YamlOutline.Screen.Cell
import YamlOutline.Text.Lines

/-!
Panels: rectangles with a border, a title on the border and rows inside. A panel has exactly as many
rows and columns as it is given, also where that is too little for its border.
-/

namespace YamlOutline.Screen

/-- A rectangle of cells, from top to bottom. -/
abbrev Picture := List Row

/-- The room inside a border. -/
def inside (extent : Nat) : Nat :=
  extent - 2

/-- A row between two ends. In a single column only the left end shows. -/
def bordered (width : Nat) (left right : String) (row : Row) : Row :=
  match width with
  | 0 => []
  | 1 => [.plain left]
  | _ => .plain left :: row ++ [.plain right]

private def edge : Cell := .plain "─"

/-- The inner part of an upper border with a title on it. The lines of a title stand side by side,
and no glyph of it reaches further than its text. -/
private def titled (room : Nat) (title : String) : Row :=
  let runs : List Run := (Text.rows title.toList).map fun cs => ⟨.ofList cs, {}⟩
  let width := runs.foldl (fun n r => n + r.width) 0
  Row.write (List.replicate room edge) (min width room) runs

/-- A panel of the given size. A single row is the upper border. -/
def panel (width height : Nat) (title : String) (rows : List Row) : Picture :=
  let room := inside width
  let top := bordered width "┌" "┐" (titled room title)
  let bottom := bordered width "└" "┘" (List.replicate room edge)
  match height with
  | 0 => []
  | 1 => [top]
  | _ =>
    let blank := List.replicate (inside height - rows.length) []
    let shown := (rows ++ blank).take (inside height)
    top :: shown.map (fun r => bordered width "│" "│" (Row.fill .blank room r)) ++ [bottom]

/-- Two pictures of one height side by side. -/
def beside (left right : Picture) : Picture :=
  left.zipWith (· ++ ·) right

/-- A panel with lines of plain text. -/
def textPanel (width height : Nat) (title text : String) : Picture :=
  panel width height title <|
    (Text.rows text.toList).map fun cs => Row.paragraph (inside width) [⟨.ofList cs, {}⟩]

end YamlOutline.Screen
