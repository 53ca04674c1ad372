import YamlOutline.Outline.Basic

/-!
The visible rows of an outline. Items start out collapsed; the set of expanded paths says below
which items the children show.
-/

namespace YamlOutline.Outline

open Syntax (Span)

/-- One visible line of the outline. -/
structure Row where
  /-- Child indices from the roots to the item. -/
  path : List Nat
  label : String
  expandable : Bool
  /-- Whether the children show. -/
  expanded : Bool
  /-- Whether no sibling follows. -/
  isLast : Bool
  /-- For every ancestor, whether a sibling follows it. -/
  guides : List Bool
  span : Span
  deriving DecidableEq, Repr

namespace Row

/-- The level of the item, 0 for a root. -/
def depth (r : Row) : Nat :=
  r.path.length - 1

end Row

mutual
def rowsOf (expanded : List (List Nat)) (path : List Nat) (guides : List Bool)
    (isLast : Bool) : Item → List Row
  | ⟨label, kind, span, children⟩ =>
    let expandable := kind == .expandable
    let isExpanded := expandable && expanded.contains path
    let row : Row := ⟨path, label, expandable, isExpanded, isLast, guides, span⟩
    if isExpanded then row :: rowsFrom expanded path (guides ++ [!isLast]) 0 children else [row]

def rowsFrom (expanded : List (List Nat)) (parent : List Nat) (guides : List Bool)
    (index : Nat) : List Item → List Row
  | [] => []
  | t :: ts =>
    rowsOf expanded (parent ++ [index]) guides ts.isEmpty t ++
      rowsFrom expanded parent guides (index + 1) ts
end

/-- The visible rows from top to bottom. -/
def visibleRows (expanded : List (List Nat)) (roots : List Item) : List Row :=
  rowsFrom expanded [] [] 0 roots

end YamlOutline.Outline
