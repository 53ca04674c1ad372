import YamlOutline.Text.Table.Basic
import YamlOutline.Text.Table.Lowercase

/-!
Small forms of letters. Two letters do not have one small form of one character: the capital I with
a dot, and the capital sigma, which has another form at the end of a word.
-/

namespace YamlOutline.Text

def capitalRun? (n : Nat) : Option (Nat × Nat × Nat × Int) :=
  Table.capitals.find? fun (first, last, step, _) =>
    first ≤ n && n ≤ last && (n - first) % step == 0

def smallForm (c : Char) : Char :=
  if c.toNat < 0x80 then c.toLower
  else
    match capitalRun? c.toNat with
    | some (_, _, _, away) => .ofNat (Int.toNat (c.toNat + away))
    | none => c

private def isCased (c : Char) : Bool :=
  Table.has Table.cased c.toNat

private def isCaseIgnorable (c : Char) : Bool :=
  Table.has Table.caseIgnorable c.toNat

/-- Whether the first character that matters for case is a letter that has case. -/
private def meetsCased (cs : List Char) : Bool :=
  match cs.dropWhile isCaseIgnorable with
  | c :: _ => isCased c
  | [] => false

/-- The rest of a text in small letters; `before` is what came before it, last character first. -/
def lowerFrom (before : List Char) : List Char → List Char
  | [] => []
  | c :: r =>
    let small :=
      if c.toNat = 0x130 then ['i', '\u0307']
      else if c.toNat = 0x3A3 then
        [if meetsCased before && !meetsCased r then '\u03c2' else '\u03c3']
      else [smallForm c]
    small ++ lowerFrom (c :: before) r

def lowercase (s : String) : String :=
  .ofList (lowerFrom [] s.toList)

/-- Whether two texts are equal but for the case of the letters A to Z. -/
def eqIgnoringCase (s t : String) : Bool :=
  s.toList.map Char.toLower == t.toList.map Char.toLower

end YamlOutline.Text
