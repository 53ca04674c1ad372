import YamlOutline.Syntax.Character
import YamlOutline.Syntax.Tree

/-!
A place in the source and the moves from it. Every move is a number of characters, so that a later
place never has a smaller offset.
-/

namespace YamlOutline.Syntax

/-- The text that is still to be read, and where it stands: its byte offset, its row and the number
of characters before it in that row. -/
structure Cursor where
  rest : List Char
  offset : Nat
  row : Nat
  column : Nat

namespace Cursor

/-- The start of a text. A byte order mark belongs to no row. -/
def ofText (cs : List Char) : Cursor :=
  match cs with
  | c :: r => if c.toNat == 0xFEFF then ⟨r, c.utf8Size, 0, 0⟩ else ⟨cs, 0, 0, 0⟩
  | [] => ⟨[], 0, 0, 0⟩

def next (p : Cursor) : Cursor :=
  match p.rest with
  | [] => p
  | c :: r =>
    if isBreak c then ⟨r, p.offset + c.utf8Size, p.row + 1, 0⟩
    else ⟨r, p.offset + c.utf8Size, p.row, p.column + 1⟩

/-- The place `n` characters further on. -/
def drop (p : Cursor) : Nat → Cursor
  | 0 => p
  | n + 1 => p.next.drop n

/-- The stretch of the next `n` characters. -/
def spanOf (p : Cursor) (n : Nat) : Span :=
  ⟨p.offset, (p.drop n).offset⟩

end Cursor

end YamlOutline.Syntax
