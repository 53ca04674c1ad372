import YamlOutline.Document

/-!
The text of a document while it is edited: rows of characters, a cursor and a mode.
-/

namespace YamlOutline

/-- A key pressed alone. -/
inductive Key where
  | char (c : Char)
  | up | down | left | right
  | enter | escape | tab | backspace | home
  deriving DecidableEq, Repr

inductive Buffer.Mode where
  | normal | insert
  deriving DecidableEq, Repr

structure Buffer where
  rows : List (List Char)
  row : Nat := 0
  column : Nat := 0
  mode : Buffer.Mode := .normal
  /-- The first row that was shown when the buffer was last drawn. -/
  top : Nat := 0
  deriving DecidableEq, Repr

namespace Buffer

/-- A buffer with the rows of a text: one more than it has newlines. -/
def ofText (text : String) : Buffer :=
  let rows := Text.pieces '\n' text.toList
  { rows := rows.dropLast.map Text.dropReturn ++ rows.getLast?.toList }

/-- The rows joined by newlines. Carriage returns at the end of a row are not part of it. -/
def text (b : Buffer) : String :=
  .ofList (['\n'].intercalate (b.rows.map (Text.dropEndWhile Text.isReturn)))

def currentRow (b : Buffer) : List Char :=
  b.rows[b.row]?.getD []

/-- The last column that the cursor may take: behind the row only while inserting. -/
def lastColumn (b : Buffer) : Nat :=
  match b.mode with
  | .normal => b.currentRow.length - 1
  | .insert => b.currentRow.length

def clampColumn (b : Buffer) : Buffer :=
  { b with column := min b.column b.lastColumn }

def moveLeft (b : Buffer) : Buffer :=
  { b with column := min b.column b.lastColumn - 1 }

def moveRight (b : Buffer) : Buffer :=
  if b.column < b.lastColumn then { b with column := b.column + 1 } else b

def moveUp (b : Buffer) : Buffer :=
  { b with row := b.row - 1 }

def moveDown (b : Buffer) : Buffer :=
  if b.row + 1 < b.rows.length then { b with row := b.row + 1 } else b

/-- Begins to insert before the character at the cursor. -/
def startInsert (b : Buffer) : Buffer :=
  { b.clampColumn with mode := .insert }

/-- Begins to insert behind the character at the cursor. -/
def startAppend (b : Buffer) : Buffer :=
  b.startInsert.moveRight

def leaveInsert (b : Buffer) : Buffer :=
  { b.clampColumn with mode := .normal }

/-- Inserts a character at the cursor, or at the end of the row if the cursor is behind that. -/
def insert (b : Buffer) (c : Char) : Buffer :=
  let row := b.currentRow
  let column := min b.column row.length
  { b with
    rows := b.rows.set b.row (row.take column ++ c :: row.drop column)
    column := column + 1 }

/-- Breaks the row at the cursor. -/
def breakRow (b : Buffer) : Buffer :=
  let row := b.currentRow
  { b with
    rows := b.rows.take b.row ++ [row.take b.column, row.drop b.column] ++ b.rows.drop (b.row + 1)
    row := b.row + 1
    column := 0 }

/-- Deletes the character before the cursor; at the start of a row, joins it to the row above. -/
def deleteBack (b : Buffer) : Buffer :=
  let row := b.currentRow
  let column := min b.column row.length
  if 0 < column then
    { b with rows := b.rows.set b.row (row.eraseIdx (column - 1)), column := column - 1 }
  else if 0 < b.row then
    let above := b.rows[b.row - 1]?.getD []
    { b with
      rows := b.rows.take (b.row - 1) ++ [above ++ row] ++ b.rows.drop (b.row + 1)
      row := b.row - 1
      column := above.length }
  else { b with column }

/-- The buffer after a key. Keys without a meaning in the mode do nothing. -/
def press (b : Buffer) (key : Key) : Buffer :=
  match b.mode, key with
  | .normal, .char 'h' | .normal, .left => b.moveLeft
  | .normal, .char 'l' | .normal, .right => b.moveRight
  | .normal, .char 'k' | .normal, .up => b.moveUp
  | .normal, .char 'j' | .normal, .down => b.moveDown
  | .normal, .char 'i' => b.startInsert
  | .normal, .char 'a' => b.startAppend
  | .normal, _ => b
  | .insert, .char c => b.insert c
  | .insert, .tab => b.insert '\t'
  | .insert, .enter => b.breakRow
  | .insert, .backspace => b.deleteBack
  | .insert, .escape => b.leaveInsert
  | .insert, .left => b.moveLeft
  | .insert, .right => b.moveRight
  | .insert, .up => b.moveUp
  | .insert, .down => b.moveDown
  | .insert, .home => { b with column := 0 }

end Buffer

/-- The text in place of a document: with the line endings of the document, and with a newline at
the end if the document had one. -/
def matchLineEndings (text former : String) : String :=
  let cs := former.toList
  let ending := if hasCrLf cs then ['\r', '\n'] else ['\n']
  let body := text.toList.flatMap fun c => if c = '\n' then ending else [c]
  if cs.getLast? = some '\n' && body.getLast? != some '\n' then .ofList (body ++ ending)
  else .ofList body
where
  hasCrLf : List Char → Bool
    | '\r' :: '\n' :: _ => true
    | _ :: r => hasCrLf r
    | [] => false

end YamlOutline
