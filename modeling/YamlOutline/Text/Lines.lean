/-!
Ways of cutting a text. `pieces` cuts at every separator and loses nothing else; `rows` cuts at
newlines and also gives up the carriage return of a line ending and an empty last piece.
-/

namespace YamlOutline.Text

/-- The text cut at every separator: one piece more than there are separators. -/
def pieces (separator : Char) : List Char → List (List Char)
  | [] => [[]]
  | c :: r =>
    if c = separator then [] :: pieces separator r
    else
      match pieces separator r with
      | [] => [[c]]
      | p :: ps => (c :: p) :: ps

def isReturn (c : Char) : Bool :=
  c == '\r'

/-- Removes one carriage return at the end. -/
def dropReturn : List Char → List Char
  | [] => []
  | [c] => if isReturn c then [] else [c]
  | c :: d :: r => c :: dropReturn (d :: r)

def endedRows : List (List Char) → List (List Char)
  | [] => []
  | [p] => if p.isEmpty then [] else [p]
  | p :: q :: ps => dropReturn p :: endedRows (q :: ps)

/-- The lines of a text without their line endings. A text that ends in a newline has no further
empty line, and a carriage return at the end of an unfinished last line is kept. -/
def rows (cs : List Char) : List (List Char) :=
  endedRows (pieces '\n' cs)

end YamlOutline.Text
