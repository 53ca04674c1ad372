import YamlOutline.Outline.Basic

/-!
Outlines as text: one line for each item, two blanks of indentation for each level.
-/

namespace YamlOutline.Outline

def Kind.marker : Kind → Char
  | .expandable => '>'
  | .leaf => '-'

/-- The line of an item without its line ending. -/
def line (depth : Nat) (kind : Kind) (label : String) : String :=
  .ofList (List.replicate (2 * depth) ' ' ++ [kind.marker, ' ']) ++ label

mutual
def renderItem (depth : Nat) : Item → String
  | ⟨label, kind, _, children⟩ => line depth kind label ++ "\n" ++ renderItems (depth + 1) children

def renderItems (depth : Nat) : List Item → String
  | [] => ""
  | t :: ts => renderItem depth t ++ renderItems depth ts
end

/-- The outline in the summary format: `>` before an item with children to show, `-` before any
other. -/
def render (items : List Item) : String :=
  renderItems 0 items

end YamlOutline.Outline
