import YamlOutline.Node.Basic
import YamlOutline.Text.Blank

/-!
Outlines: the mappings and sequences of a document as a tree of labels. Scalars do not appear.
-/

namespace YamlOutline.Outline

open Syntax (Span)

inductive Kind where
  /-- Has children to show. -/
  | expandable
  | leaf
  deriving DecidableEq, Repr, Inhabited

/-- A label with the source that it leads to and the labels below it. -/
structure Item where
  label : String
  kind : Kind
  span : Span
  children : List Item
  deriving Repr, Inhabited

namespace Item

/-- The item whose kind is decided by whether it has children. -/
def ofChildren (label : String) (span : Span) (children : List Item) : Item :=
  ⟨label, if children.isEmpty then .leaf else .expandable, span, children⟩

def isExpandable (t : Item) : Bool :=
  t.kind == .expandable

end Item

def oneLine (s : String) : String :=
  .ofList (Text.singleLine s.toList)

/-- The label of a container in a sequence: a mapping is called after its first entry, anything else
shows its source on one line. -/
def itemLabel (n : Node) (source : String) : String :=
  match n.entries with
  | [] => oneLine (n.text source)
  | .bare _ key :: _ => key ++ ":"
  | .pair _ key value :: _ =>
    key ++ ": " ++ oneLine (value.scalar?.getD (value.text source))

mutual
/-- The items for the containers directly inside a node. -/
def ofNode (source : String) : Node → List Item
  | .mapping _ entries => ofEntries source entries
  | .sequence _ items => ofItems source items
  | .scalar _ _ | .null _ => []

def ofEntries (source : String) : List Entry → List Item
  | [] => []
  | .bare _ _ :: es => ofEntries source es
  | .pair span key value :: es =>
    let rest := ofEntries source es
    if value.isContainer then .ofChildren (key ++ ":") span (ofNode source value) :: rest else rest

def ofItems (source : String) : List Node → List Item
  | [] => []
  | n :: ns =>
    let rest := ofItems source ns
    if n.isContainer then .ofChildren (itemLabel n source) n.span (ofNode source n) :: rest
    else rest
end

/-- The outline of a document; one without content has an empty outline. -/
def build (root : Option Node) (source : String) : List Item :=
  match root with
  | some n => ofNode source n
  | none => []

end YamlOutline.Outline
