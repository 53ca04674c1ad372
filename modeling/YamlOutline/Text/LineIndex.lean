import YamlOutline.Text.Offset

/-!
The line index of a text: the byte offsets at which its lines begin, in order. Where an offset lies in
the index is found by halving.
-/

namespace YamlOutline.Text

/-- The offsets of the newlines of a text that begins at `offset`. -/
def newlinesFrom (offset : Nat) : List Char → List Nat
  | [] => []
  | c :: r =>
    let rest := newlinesFrom (offset + c.utf8Size) r
    if c = '\n' then offset :: rest else rest

/-- The first line begins with the text, and every other one behind a newline. -/
def lineStarts (cs : List Char) : Array Nat :=
  (0 :: (newlinesFrom 0 cs).map (· + 1)).toArray

/-- The first place from `lo` on whose entry is greater than `n`, or else `hi`. The entries must be in
order. -/
def bisect (table : Array Nat) (n lo hi : Nat) (h : hi ≤ table.size) : Nat :=
  if hlt : lo < hi then
    let mid := lo + (hi - lo) / 2
    if table[mid] ≤ n then bisect table n (mid + 1) hi h else bisect table n lo mid (by omega)
  else lo
termination_by hi - lo

/-- The number of entries that are at most `n`, of a table in order. -/
def partitionPoint (table : Array Nat) (n : Nat) : Nat :=
  bisect table n 0 table.size (Nat.le_refl _)

end YamlOutline.Text
