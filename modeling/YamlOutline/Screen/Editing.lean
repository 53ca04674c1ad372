import YamlOutline.Screen.Panel
import YamlOutline.Buffer

/-!
The buffer on the screen: its rows wrapped at the width, scrolled so that the cursor can be seen,
and a last row with the mode.
-/

namespace YamlOutline.Screen

/-- The columns that a character is counted with. Tabs and other controls have none. -/
private def countedColumns (c : Char) : Nat :=
  if Text.isControl c then 0 else Text.columns c

/-- Puts characters into rows of a width; `used` columns of the first are taken. -/
private def wrapFrom (width : Nat) (used : Nat) : List Char → List (List Char)
  | [] => [[]]
  | c :: cs =>
    let n := countedColumns c
    if used ≠ 0 && width < used + n then [] :: addChar c (wrapFrom width n cs)
    else addChar c (wrapFrom width (used + n) cs)
where
  addChar (c : Char) : List (List Char) → List (List Char)
    | [] => [[c]]
    | r :: rs => (c :: r) :: rs

/-- A row of a buffer as it is shown: a tab is two blanks. -/
private def untabbed (cs : List Char) : List Char :=
  cs.flatMap fun c => if c = '\t' then [' ', ' '] else [c]

/-- What the rows of the screen hold that one row of a buffer takes. -/
def wrap (width : Nat) (cs : List Char) : List (List Char) :=
  wrapFrom width 0 (untabbed cs)

/-- The rows of the screen that a row of a buffer is counted with: as many as its columns fill. -/
private def countRows (width : Nat) (cs : List Char) : Nat :=
  (cs.foldl (fun n c => n + countedColumns c) 0 + width - 1) / width

/-- The first row to show, at or after `top`, so that all from it to the row of the cursor have room
in `height` rows of the screen. -/
private def startFor (width height : Nat) (rows : List (List Char)) (cursor : Nat) : Nat → Nat
  | 0 => cursor
  | n + 1 =>
    let start := cursor - (n + 1)
    let shown := (rows.drop start).take (n + 2)
    let taken := shown.foldl (fun m cs => m + countRows width cs) 0
    if taken ≤ height then start else startFor width height rows cursor n

/-- The buffer scrolled no further than it must be to show the cursor. -/
def scrolled (width height : Nat) (b : Buffer) : Buffer :=
  if b.row < b.top then { b with top := b.row }
  else { b with top := startFor width height b.rows b.row (b.row - b.top) }

/-- The name of the mode in the middle of ten columns. -/
private def modeRow (width : Nat) (mode : Buffer.Mode) : Row :=
  let name := match mode with
    | .normal => "Normal"
    | .insert => "Insert"
  let field := min 10 width
  let shown := min name.length field
  List.replicate (field / 2 - shown / 2) .blank ++ Row.ofLine shown [⟨name, {}⟩]

/-- The panel of a buffer. -/
def bufferPanel (width height : Nat) (title : String) (b : Buffer) : Picture × Buffer :=
  let room := inside width
  let height' := inside height
  let b := scrolled room (height' - 1) b
  let texts := ((b.rows.drop b.top).flatMap (wrap room)).take (height' - 1)
  let rows := texts.map fun cs => Row.ofLine room [⟨.ofList cs, {}⟩]
  let filled := rows ++ List.replicate (height' - 1 - rows.length) []
  (panel width height title (filled ++ [modeRow room b.mode]), b)

end YamlOutline.Screen
