import YamlOutline.Text.Table.Basic
import YamlOutline.Text.Table.Picture
import YamlOutline.Text.Table.Width

/-!
The columns that text takes on a terminal. The width of a text is the sum of the widths of its
characters, except where characters melt into one sign: joined pictures, pictures with a selector or
a skin colour, and the ligatures of some scripts.
-/

namespace YamlOutline.Text

def isControl (c : Char) : Bool :=
  c.toNat < 0x20 || (0x7F ≤ c.toNat && c.toNat < 0xA0)

/-- The columns that a character takes on its own. -/
def columns (c : Char) : Nat :=
  let n := c.toNat
  if n < 0x300 then if n = 0xAD then 0 else 1
  else if Table.has Table.zeroWidth n then 0
  else if Table.has Table.wide n then 2
  else if n = 0x17D8 then 3
  else 1

namespace Columns

/-- What stands behind a character, as far as its width depends on that. -/
inductive Behind where
  | other
  | newline
  /-- The colour of a skin. -/
  | tone
  /-- One flag letter, or several. -/
  | flag | flags
  | picture
  /-- A joiner before a picture, with a keycap before it or not. -/
  | joined (isKeycap : Bool)
  /-- Flag letters before a joined picture: the first, then in turn a pair and one more. -/
  | joinedFlag | joinedFlags (isPair : Bool)
  /-- Tags before a joined picture: letters, or digits before letters. -/
  | joinedTags (letters digits : Nat)
  | alef
  /-- The letters that end a ligature, with a joiner before them or not. -/
  | lamed (isJoined : Bool) | ya (isJoined : Bool) | consonant (isJoined : Bool)
  | orkhon (isJoined : Bool)
  | signYa | joinedConsonant | lisuTone | khmer
  deriving DecidableEq, Repr

/-- What a variation selector asks for. -/
inductive Selector where
  | picture | text
  deriving DecidableEq, Repr

/-- The columns counted so far from the end of a text, and what the rest of it begins with. -/
structure State where
  total : Nat
  behind : Behind
  selector : Option Selector := none

private def isFlagLetter (n : Nat) : Bool :=
  0x1F1E6 ≤ n && n ≤ 0x1F1FF

private def isTone (n : Nat) : Bool :=
  0x1F3FB ≤ n && n ≤ 0x1F3FF

private def isAlef (n : Nat) : Bool :=
  (0x622 ≤ n && n ≤ 0x627 && n != 0x624 && n != 0x626) || (0x671 ≤ n && n ≤ 0x675 && n != 0x674) ||
    n == 0x773 || n == 0x774 || (0x870 ≤ n && n ≤ 0x882)

private def isLam (n : Nat) : Bool :=
  n == 0x644 || (0x6B5 ≤ n && n ≤ 0x6B8) || n == 0x76A || n == 0x8A6 || n == 0x8C7

/-- Letters that a sign before them puts below the letter before it. -/
private def isKhmer (n : Nat) : Bool :=
  (0x1780 ≤ n && n ≤ 0x1798 && n != 0x1783 && n != 0x1788 && n != 0x178D && n != 0x1794) ||
    (0x179B ≤ n && n ≤ 0x179D) || n == 0x17A0 || n == 0x17A2 || n == 0x17A7 || n == 0x17AB ||
    n == 0x17AC || n == 0x17AF

private def isTifinagh (n : Nat) : Bool :=
  (0x2D31 ≤ n && n ≤ 0x2D65) || n == 0x2D6F

/-- Marks without a form of their own, which part no ligature. -/
private def isSilent (n : Nat) : Bool :=
  n == 0x34F || n == 0x17B4 || n == 0x17B5 || (0x180B ≤ n && n ≤ 0x180D) || n == 0x180F ||
    (0xFE00 ≤ n && n ≤ 0xFE0F) || (0xE0100 ≤ n && n ≤ 0xE01EF)

/-- Marks that may stand between the two letters of the Arabic ligature. -/
private def isTransparent (n : Nat) : Bool :=
  Table.has Table.zeroWidth n && !Table.has Table.opaqueMarks n

private def isSelectable (n : Nat) : Bool :=
  Table.has Table.selectable n

/-- Pictures that a selector turns into narrow text. -/
private def isTextual (n : Nat) : Bool :=
  isSelectable n && Table.has Table.presented n && !(0x1F200 ≤ n && n ≤ 0x1F2FF)

namespace Behind

/-- What a character is to the one before it. -/
def ofChar (n : Nat) : Behind :=
  if n < 0x300 then .other
  else if isAlef n then .alef
  else if n = 0x5DC then .lamed false
  else if n = 0x1A10 then .ya false
  else if isKhmer n then .khmer
  else if isTifinagh n then .consonant false
  else if n = 0xA4FC || n = 0xA4FD then .lisuTone
  else if n = 0x10C03 then .orkhon false
  else if isFlagLetter n then .flag
  else if isTone n then .tone
  else if Table.has Table.presented n then .picture
  else .other

/-- The same with a joiner before it, if it is part of a ligature that joiners do not part. -/
private def withJoiner? : Behind → Option Behind
  | lamed _ => some (lamed true)
  | ya _ => some (ya true)
  | consonant _ => some (consonant true)
  | orkhon _ => some (orkhon true)
  | signYa => some signYa
  | joinedConsonant => some joinedConsonant
  | lisuTone => some lisuTone
  | khmer => some khmer
  | _ => none

/-- Whether it is part of a ligature that selectors do not part. -/
private def isLigature (b : Behind) : Bool :=
  b == alef || b.withJoiner?.isSome

private def isJoined : Behind → Bool
  | joined _ => true
  | _ => false

/-- The total and what comes before it, where a character melts with what stands behind it. -/
private def melt? (total n : Nat) : Behind → Option (Nat × Behind)
  | alef =>
    if isLam n then some (total, .other) else if isTransparent n then some (total, alef) else none
  | lamed true => if n = 0x5D0 then some (total, .other) else none
  | ya true => if n = 0x1A17 then some (total, signYa) else none
  | signYa => if n = 0x1A15 then some (total, .other) else none
  | consonant isJoined =>
    if n = 0x2D7F then some (total + 1, joinedConsonant)
    else if isJoined && isTifinagh n then some (total, .other)
    else none
  | joinedConsonant => if isTifinagh n then some (total - 1, .other) else none
  | lisuTone => if 0xA4F8 ≤ n && n ≤ 0xA4FB then some (total, .other) else none
  | orkhon false => if n = 0x10C32 then some (total, .other) else none
  | khmer => if n = 0x17D2 then some (total - 1, .other) else none
  | tone =>
    if Table.has Table.tonable n then some (total, .picture)
    else if n = 0x200D then some (total, joined false)
    else none
  | flag => if isFlagLetter n then some (total + 1, flags) else none
  | flags =>
    if isFlagLetter n then some (total + 1, flags)
    else if n = 0x200D then some (total, joined false)
    else none
  | picture => if n = 0x200D then some (total, joined false) else none
  | joined false =>
    if n = 0x20E3 then some (total, joined true)
    else if isFlagLetter n then some (total + 1, joinedFlag)
    else if isTone n then some (total, tone)
    else if n = 0xE007F then some (total, joinedTags 0 0)
    else if Table.has Table.presented n then some (total, picture)
    else none
  | joinedFlag => if isFlagLetter n then some (total - 1, joinedFlags true) else none
  | joinedFlags isPair =>
    if isFlagLetter n then
      some (if isPair then total + 3 else total - 1, joinedFlags (!isPair))
    else if n = 0x200D then some (total, joined false)
    else none
  | joinedTags letters digits =>
    if 0xE0061 ≤ n && n ≤ 0xE007A && digits = 0 && letters < 6 then
      some (total, joinedTags (letters + 1) 0)
    else if 0xE0030 ≤ n && n ≤ 0xE0039 && letters < 5 && digits < 3 then
      some (total, joinedTags letters (digits + 1))
    else if n = 0x1F3F4 && (digits = 3 || digits = 0 && 3 ≤ letters) then some (total, picture)
    else none
  | _ => none

end Behind

/-- Adds the character before what was counted, no selector standing between. -/
def before (n total : Nat) (b : Behind) : State :=
  if n ≤ 0xA0 then
    ⟨if n = 0x0D && b = .newline then total else total + 1,
      if n = 0x0A then .newline else .other, none⟩
  else if n = 0xFE0F then
    ⟨total, if b.isLigature || b.isJoined then b else .other, some .picture⟩
  else if n = 0xFE0E then ⟨total, if b.isLigature then b else .other, some .text⟩
  else
    match b.withJoiner? with
    | some joined =>
      if n = 0x200D then ⟨total, joined, none⟩
      else if isSilent n then ⟨total, b, none⟩
      else melted
    | none => melted
where
  melted : State :=
    match b.melt? total n with
    | some (total, b) => ⟨total, b, none⟩
    | none => ⟨total + columns (.ofNat n), .ofChar n, none⟩

/-- Adds the character before what was counted. -/
def step (c : Char) (s : State) : State :=
  let n := c.toNat
  let rest := if s.behind.isLigature then s.behind else .other
  match s.selector with
  | none => before n s.total s.behind
  | some .picture =>
    if isSelectable n then ⟨if s.behind.isJoined then s.total else s.total + 2, .picture, none⟩
    else before n s.total rest
  | some .text => if isTextual n then ⟨s.total + 1, .other, none⟩ else before n s.total rest

end Columns

/-- The columns that a text takes. -/
def width (cs : List Char) : Nat :=
  (cs.foldr Columns.step ⟨0, .other, none⟩).total

end YamlOutline.Text
