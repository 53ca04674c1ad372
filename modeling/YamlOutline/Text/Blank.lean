/-!
White space, and the trimming and word splitting that rest on it.
-/

namespace YamlOutline.Text

/-- The characters with the Unicode property White_Space. -/
def isBlank (c : Char) : Bool :=
  let n := c.toNat
  (9 ≤ n && n ≤ 13) || n == 32 || n == 0x85 || n == 0xA0 || n == 0x1680 ||
    (0x2000 ≤ n && n ≤ 0x200A) || n == 0x2028 || n == 0x2029 || n == 0x202F ||
    n == 0x205F || n == 0x3000

def trimStart (cs : List Char) : List Char :=
  cs.dropWhile isBlank

/-- The text without the characters at its end that satisfy `p`. -/
def dropEndWhile (p : Char → Bool) : List Char → List Char
  | [] => []
  | c :: r =>
    match dropEndWhile p r with
    | [] => if p c then [] else [c]
    | d :: s => c :: d :: s

def trimEnd (cs : List Char) : List Char :=
  dropEndWhile isBlank cs

def trim (cs : List Char) : List Char :=
  trimEnd (trimStart cs)

/-- The maximal runs of characters that are not blank. -/
def words : List Char → List (List Char)
  | [] => []
  | c :: r =>
    if isBlank c then words r
    else
      match r with
      | [] => [[c]]
      | d :: _ =>
        if isBlank d then [c] :: words r
        else
          match words r with
          | [] => [[c]]
          | w :: ws => (c :: w) :: ws

/-- The text on one row: its words, one blank between two of them. -/
def singleLine (cs : List Char) : List Char :=
  [' '].intercalate (words cs)

end YamlOutline.Text
