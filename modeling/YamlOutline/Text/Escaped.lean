import YamlOutline.Text.Table.Basic
import YamlOutline.Text.Table.Printable

/-!
Text in double quotes with escapes, so that every character of it can be seen.
-/

namespace YamlOutline.Text

/-- Whether the character has no visible form of its own. -/
def isHidden (c : Char) : Bool :=
  if 0x20 ≤ c.toNat && c.toNat < 0x7F then false
  else Table.has Table.hidden c.toNat

private def escape (c : Char) : List Char :=
  if c = '\x00' then ['\\', '0']
  else if c = '\t' then ['\\', 't']
  else if c = '\r' then ['\\', 'r']
  else if c = '\n' then ['\\', 'n']
  else if c = '"' || c = '\\' then ['\\', c]
  else if isHidden c then ['\\', 'u', '\x7b'] ++ Nat.toDigits 16 c.toNat ++ ['\x7d']
  else [c]

/-- The text in double quotes. -/
def escaped (s : String) : String :=
  .ofList ('"' :: s.toList.flatMap escape ++ ['"'])

end YamlOutline.Text
