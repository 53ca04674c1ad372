import YamlOutline.Outline.Basic

/-!
Outlines as JSON, on one line and laid out over several.
-/

namespace YamlOutline.Outline.Json

private def hexDigit (n : Nat) : Char :=
  (Nat.toDigits 16 n).headD '0'

/-- A character inside a JSON string. Control characters have escapes, short ones where JSON has
them; everything else stands for itself. -/
private def character (c : Char) : List Char :=
  if c = '"' || c = '\\' then ['\\', c]
  else if c = '\n' then ['\\', 'n']
  else if c = '\r' then ['\\', 'r']
  else if c = '\t' then ['\\', 't']
  else if c.toNat = 8 then ['\\', 'b']
  else if c.toNat = 12 then ['\\', 'f']
  else if c.toNat < 0x20 then
    ['\\', 'u', '0', '0', hexDigit (c.toNat / 16), hexDigit (c.toNat % 16)]
  else [c]

def string (s : String) : String :=
  .ofList ('"' :: s.toList.flatMap character ++ ['"'])

def kind : Kind → String
  | .expandable => "\"expandable\""
  | .leaf => "\"leaf\""

private def commas : List String → String
  | [] => ""
  | [s] => s
  | s :: t :: ts => s ++ "," ++ commas (t :: ts)

mutual
private def item : Item → String
  | ⟨label, k, span, children⟩ =>
    "\x7b\"label\":" ++ string label ++ ",\"kind\":" ++ kind k ++
      ",\"start_offset\":" ++ toString span.start ++ ",\"end_offset\":" ++ toString span.stop ++
      ",\"children\":[" ++ commas (items children) ++ "]\x7d"

private def items : List Item → List String
  | [] => []
  | t :: ts => item t :: items ts
end

/-- The outline on one line; the fields of an item in the order of its definition. -/
def compact (ts : List Item) : String :=
  "[" ++ commas (items ts) ++ "]"

private def indentation (depth : Nat) : String :=
  .ofList (List.replicate (2 * depth) ' ')

/-- Elements on lines of their own between brackets that stand at `depth`. -/
private def block (opening closing : String) (depth : Nat) (elements : List String) : String :=
  match elements with
  | [] => opening ++ closing
  | _ =>
    let lines := elements.map (indentation (depth + 1) ++ ·)
    opening ++ "\n" ++ String.intercalate ",\n" lines ++ "\n" ++ indentation depth ++ closing

private def field (name value : String) : String :=
  string name ++ ": " ++ value

mutual
private def prettyItem (depth : Nat) : Item → String
  | ⟨label, k, span, children⟩ =>
    block "\x7b" "\x7d" depth [
      field "children" (block "[" "]" (depth + 1) (prettyItems (depth + 2) children)),
      field "end_offset" (toString span.stop),
      field "kind" (kind k),
      field "label" (string label),
      field "start_offset" (toString span.start)]

private def prettyItems (depth : Nat) : List Item → List String
  | [] => []
  | t :: ts => prettyItem depth t :: prettyItems depth ts
end

/-- The outlines of several documents, with the name of each. Keys are in alphabetical order. -/
def pretty (outlines : List (String × List Item)) : String :=
  block "[" "]" 0 (outlines.map fun (uri, ts) =>
    block "\x7b" "\x7d" 1 [
      field "outline" (block "[" "]" 2 (prettyItems 3 ts)),
      field "uri" (string uri)])

end YamlOutline.Outline.Json
