/-!
Byte offsets into a text. A character takes as many bytes as its UTF-8 form; an offset is a
boundary when it does not fall inside a character.
-/

namespace YamlOutline.Text

/-- Number of bytes of the UTF-8 form. -/
def size : List Char → Nat
  | [] => 0
  | c :: r => c.utf8Size + size r

/-- What follows the first `n` bytes, if `n` is a boundary. -/
def dropBytes? : List Char → Nat → Option (List Char)
  | cs, 0 => some cs
  | [], _ + 1 => none
  | c :: r, n + 1 =>
    if c.utf8Size ≤ n + 1 then dropBytes? r (n + 1 - c.utf8Size) else none

/-- The first `n` bytes as characters, if `n` is a boundary. -/
def takeBytes? : List Char → Nat → Option (List Char)
  | _, 0 => some []
  | [], _ + 1 => none
  | c :: r, n + 1 =>
    if c.utf8Size ≤ n + 1 then (takeBytes? r (n + 1 - c.utf8Size)).map (c :: ·) else none

/-- The characters from one byte offset to another, if both are boundaries in order. -/
def slice? (cs : List Char) (start stop : Nat) : Option (List Char) :=
  if start ≤ stop then (dropBytes? cs start).bind (takeBytes? · (stop - start)) else none

/-- The characters that lie wholly before the byte offset `n`. -/
def upTo : List Char → Nat → List Char
  | [], _ => []
  | c :: r, n => if c.utf8Size ≤ n then c :: upTo r (n - c.utf8Size) else []

/-- Whether a byte offset is a boundary of the text. -/
def isBoundary (cs : List Char) (n : Nat) : Bool :=
  (dropBytes? cs n).isSome

/-- The last boundary at or before `n`, found by stepping back. -/
def stepBack (cs : List Char) : Nat → Nat
  | 0 => 0
  | n + 1 => if isBoundary cs (n + 1) then n + 1 else stepBack cs n

/-- The largest boundary of the text that is at most `n`. -/
def clamp (cs : List Char) (n : Nat) : Nat :=
  stepBack cs (min n (size cs))

end YamlOutline.Text
