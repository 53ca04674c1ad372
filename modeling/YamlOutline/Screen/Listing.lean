import YamlOutline.Outline.Branch
import YamlOutline.Screen.Panel
import YamlOutline.Session.Basic

/-!
Lists with a selection: the open files, and the rows of the outline.
-/

namespace YamlOutline.Screen

/-- The first item to show of a list, so that the selected one is the last to show or comes before
it. -/
def listStart (selected height : Nat) : Nat :=
  selected + 1 - height

/-- The rows of a list that fit. The selected row is reversed over its whole width; a selection
behind the end is the last item. -/
def listing (width height : Nat) (selected : Nat) (items : List (List Run)) : List Row :=
  let selected := min selected (items.length - 1)
  let start := listStart selected height
  ((items.drop start).take height).mapIdx fun i runs =>
    let row := Row.ofLine width runs
    if start + i = selected then row.map Cell.reversed else row

private def fileRuns (isActive : Bool) (d : Document) : List Run :=
  let color := if d.isYaml then Color.cyan else Color.gray
  [⟨if isActive then "● " else "  ", {}⟩,
    ⟨"📄 " ++ d.uri, { color, isBold := true }⟩,
    ⟨"  [" ++ d.language ++ "]", { color := some .gray }⟩]

/-- The open documents, the one with the focus marked. -/
def filesPanel (width height : Nat) (s : Session) : Picture :=
  let w := s.workspace
  let items := w.documents.mapIdx fun i d => fileRuns (w.active == some i) d
  panel width height ("Files (" ++ toString w.documents.length ++ ")")
    (listing (inside width) (inside height) s.file items)

private def rowRuns (r : Outline.Row) : List Run :=
  [⟨r.branch, { color := some .gray }⟩, ⟨r.expander, {}⟩,
    ⟨r.label, { color := if r.expandable then some .cyan else none }⟩]

/-- The rows of the outline. -/
def outlinePanel (width height : Nat) (s : Session) : Picture :=
  let title :=
    match s.workspace.activeDocument with
    | none => "Outline"
    | some d =>
      if d.isYaml then "Outline (" ++ toString s.rows.length ++ " entries)"
      else "Outline (not YAML)"
  panel width height title
    (listing (inside width) (inside height) s.row (s.rows.map rowRuns))

end YamlOutline.Screen
