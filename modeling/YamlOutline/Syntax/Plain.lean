import YamlOutline.Syntax.Character

/-!
Plain scalars: text without quotes, on one row or folded over several.
-/

namespace YamlOutline.Syntax.Plain

def isHead (inFlow : Bool) : List Char → Bool
  | [] => false
  | c :: _ => isPlain inFlow c

/-- Whether a plain scalar begins here. -/
def begins (inFlow : Bool) : List Char → Bool
  | [] => false
  | c :: r =>
    if c == '-' || c == '?' || c == ':' then isHead inFlow r else isVisible c && !isIndicator c

/-- How far a plain scalar reaches that has come as far as here. `folding` says that a row has just
ended, `afterPlain` that the last character was neither a blank nor a line break; `passed` and
`kept` count characters, the latter without blanks at the end. A later row belongs to the scalar
only from column `floor` on. -/
def extend (inFlow : Bool) (floor : Nat) :
    List Char → (folding afterPlain : Bool) → (column passed kept : Nat) → Nat
  | [], _, _, _, _, kept => kept
  | c :: r, folding, afterPlain, column, passed, kept =>
    if isBreak c then extend inFlow floor r true false 0 (passed + 1) kept
    else if folding && isWhite c then
      extend inFlow floor r true false (column + 1) (passed + 1) kept
    else if folding && (isNull c || column < floor || (column == 0 && atDocumentMarker (c :: r)))
      then kept
    else if c == ':' then
      if isHead inFlow r then
        extend inFlow floor r false true (column + 1) (passed + 1) (passed + 1)
      else kept
    else if c == '#' && !afterPlain then kept
    else if isPlain inFlow c then
      extend inFlow floor r false true (column + 1) (passed + 1) (passed + 1)
    else if isWhite c then extend inFlow floor r false false (column + 1) (passed + 1) kept
    else kept

/-- Number of characters of the plain scalar that begins here. -/
def length (inFlow : Bool) (floor column : Nat) (cs : List Char) : Nat :=
  extend inFlow floor (cs.drop 1) false true (column + 1) 1 1

end YamlOutline.Syntax.Plain
