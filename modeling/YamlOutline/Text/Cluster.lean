import YamlOutline.Text.Table.Basic
import YamlOutline.Text.Table.Cluster

/-!
Clusters: the runs of characters that are read as one sign, such as a letter with its marks, a
syllable, a flag or a joined picture. Whether a character goes on with the cluster before it depends
on its class and on what the cluster ends in.
-/

namespace YamlOutline.Text

namespace Cluster

/-- What the rules on clusters know of a character. -/
inductive Class where
  | cr | lf | control
  | extend | linker | joiner
  /-- The mark that keeps consonants apart. -/
  | nonJoiner
  | spacing | lead
  /-- The parts of Korean syllables: initial, vowel and final, and syllables without and with a
  final. -/
  | initial | vowel | final | openSyllable | closedSyllable
  | consonant | picture
  /-- Letters that make a flag in pairs. -/
  | flag
  | other
  deriving DecidableEq, Repr

namespace Class

private def ofSyllable? (n : Nat) : Option Class :=
  if (0x1100 ≤ n && n ≤ 0x115F) || (0xA960 ≤ n && n ≤ 0xA97C) then some .initial
  else if (0x1160 ≤ n && n ≤ 0x11A7) || (0xD7B0 ≤ n && n ≤ 0xD7C6) || n == 0x16D63 ||
      (0x16D67 ≤ n && n ≤ 0x16D6A) then
    some .vowel
  else if (0x11A8 ≤ n && n ≤ 0x11FF) || (0xD7CB ≤ n && n ≤ 0xD7FB) then some .final
  else if 0xAC00 ≤ n && n ≤ 0xD7A3 then
    some (if (n - 0xAC00) % 28 = 0 then .openSyllable else .closedSyllable)
  else none

private def ofTables (n : Nat) : Class :=
  if Table.has Table.linker n then .linker
  else if Table.has Table.extend n then .extend
  else if Table.has Table.spacing n then .spacing
  else if Table.has Table.consonant n then .consonant
  else if Table.has Table.pictographic n then .picture
  else if Table.has Table.control n then .control
  else if Table.has Table.lead n then .lead
  else .other

def ofChar (c : Char) : Class :=
  let n := c.toNat
  if n = 0x0D then .cr
  else if n = 0x0A then .lf
  else if 0x20 ≤ n && n < 0x7F then .other
  else if n = 0x200D then .joiner
  else if n = 0x200C then .nonJoiner
  else if 0x1F1E6 ≤ n && n ≤ 0x1F1FF then .flag
  else (ofSyllable? n).getD (ofTables n)

/-- Marks that leave a picture open for a joiner. -/
private def isMark : Class → Bool
  | extend | linker | joiner | nonJoiner => true
  | _ => false

/-- Marks that leave a consonant open for the next one. -/
private def isBinding : Class → Bool
  | extend | linker | joiner => true
  | _ => false

end Class

/-- What a cluster ends in. -/
structure Tail where
  last : Class
  /-- Whether there are only marks after a picture. -/
  picture : Bool
  /-- Whether there are only marks after a consonant. -/
  consonant : Bool
  /-- Whether one of the marks after that consonant is a linker. -/
  linked : Bool
  /-- Whether the flag letters at the end are odd in number. -/
  halfFlag : Bool

namespace Tail

/-- The end of a cluster that has only one character. -/
def ofClass (k : Class) : Tail :=
  ⟨k, k == .picture, k == .consonant, false, k == .flag⟩

def push (t : Tail) (k : Class) : Tail where
  last := k
  picture := k == .picture || t.picture && k.isMark
  consonant := k == .consonant || t.consonant && k.isBinding
  linked := t.consonant && k.isBinding && (t.linked || k == .linker)
  halfFlag := k == .flag && !t.halfFlag

/-- Whether a character goes on with the cluster. -/
def takes (t : Tail) (k : Class) : Bool :=
  match t.last, k with
  | .cr, .lf => true
  | .cr, _ | .lf, _ | .control, _ => false
  | _, .cr | _, .lf | _, .control => false
  | _, .extend | _, .linker | _, .joiner | _, .nonJoiner | _, .spacing => true
  | .lead, _ => true
  | .initial, .initial | .initial, .vowel => true
  | .initial, .openSyllable | .initial, .closedSyllable => true
  | .vowel, .vowel | .vowel, .final | .openSyllable, .vowel | .openSyllable, .final => true
  | .final, .final | .closedSyllable, .final => true
  | .joiner, .picture => t.picture
  | _, .consonant => t.linked
  | _, .flag => t.halfFlag
  | _, _ => false

end Tail

/-- The rest of a cluster that ends in `t`, and the clusters after it. -/
def split (t : Tail) : List Char → List Char × List (List Char)
  | [] => ([], [])
  | c :: r =>
    let k := Class.ofChar c
    if t.takes k then
      let (rest, others) := split (t.push k) r
      (c :: rest, others)
    else
      let (rest, others) := split (.ofClass k) r
      ([], (c :: rest) :: others)

end Cluster

/-- The clusters of a text. -/
def clusters : List Char → List (List Char)
  | [] => []
  | c :: r =>
    let (rest, others) := Cluster.split (.ofClass (.ofChar c)) r
    (c :: rest) :: others

end YamlOutline.Text
