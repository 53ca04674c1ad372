import YamlOutline.Screen.Panel
import YamlOutline.Session.Basic

/-!
The text of the active document beside its outline, with line numbers. The line of the cursor stands
in the middle, except near the ends of the text.
-/

namespace YamlOutline.Screen

/-- The first line to show of `total` lines, so that `line` stands in the middle of `height`
rows. -/
def centredStart (line height total : Nat) : Nat :=
  min (line - height / 2) (total - height)

/-- The lines to show, counted from 0. -/
def previewLines (d : Document) (cursorLine height : Nat) : List Nat :=
  let start := centredStart cursorLine height d.lineCount
  List.range' start (min d.lineCount (start + height) - start)

def alignRight (width : Nat) (s : String) : String :=
  .ofList (List.replicate (width - s.length) ' ') ++ s

def numbered (d : Document) (cursorLine : Nat) (index : Nat) : List Run :=
  let digits := (toString d.lineCount).length
  let isReversed := index == cursorLine
  [⟨alignRight digits (toString (index + 1)) ++ " ", { color := some .gray, isReversed }⟩,
    ⟨d.line index, { isReversed }⟩]

/-- The active document around the cursor. -/
def previewPanel (width height : Nat) (w : Workspace) : Picture :=
  match w.activeDocument with
  | none => textPanel width height "" "No document"
  | some d =>
    let cursor := w.cursor
    let title :=
      d.uri ++ " (" ++ toString (cursor.line + 1) ++ ":" ++ toString (cursor.column + 1) ++ ")"
    panel width height title <|
      (previewLines d cursor.line (inside height)).map fun i =>
        Row.paragraph (inside width) (numbered d cursor.line i)

end YamlOutline.Screen
