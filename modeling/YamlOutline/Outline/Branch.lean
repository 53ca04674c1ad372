import YamlOutline.Outline.Rows

/-!
The lines that join the rows of an outline to a tree. Every level below the roots has four columns:
a bar goes on to a later row, a tee leads to a row with a later sibling and a corner to one without.
-/

namespace YamlOutline.Outline.Row

/-- Four columns below an ancestor, with a bar if a sibling of the ancestor follows. -/
def bar (isContinued : Bool) : String :=
  if isContinued then "│   " else "    "

/-- The four columns before the row's own label. -/
def fork (isLast : Bool) : String :=
  if isLast then "└── " else "├── "

/-- The lines before a row. Roots are not joined to each other. -/
def branch (r : Row) : String :=
  if r.depth = 0 then ""
  else String.join ((r.guides.drop 1).map bar) ++ fork r.isLast

/-- Shows whether a row has children, and whether they show. -/
def expander (r : Row) : String :=
  if !r.expandable then "  "
  else if r.expanded then "▾ "
  else "▸ "

end YamlOutline.Outline.Row
