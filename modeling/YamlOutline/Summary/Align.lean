import YamlOutline.Summary.Basic

/-!
Alignment of a summary with a document: every label takes the span of the node that it names, or of
the node that the line above it stands for.
-/

namespace YamlOutline.Summary

open Outline (Item)
open Syntax (Span)

/-- What `s` has after `lead`, if it begins with it. -/
def after? (lead s : String) : Option String :=
  if lead.toList.isPrefixOf s.toList then some (.ofList (s.toList.drop lead.length)) else none

/-- The label without a colon at its end. -/
def keyOf (label : String) : String :=
  if label.toList.getLast? = some ':' then .ofList label.toList.dropLast else label

/-- Whether a label names the item of a sequence: `name: …` a mapping with that name, `- …` any
other item with that source. -/
def namesItem (label : String) (item : Node) (source : String) : Bool :=
  match item with
  | .mapping _ _ =>
    match (item.entry? "name").bind (·.value?) |>.bind (·.scalar?) with
    | some name => after? "name: " label == some name
    | none => false
  | _ => after? "- " label == some (.ofList (Text.trim (item.text source).toList))

/-- The node that a label names among the values or items of `scope`. In a mapping it is the value
of the key that the label spells, with or without a colon. -/
def find? (label : String) (scope : Node) (source : String) : Option Node :=
  match scope with
  | .mapping _ _ => (scope.entry? (keyOf label)).bind (·.value?)
  | .sequence _ items => items.find? (namesItem label · source)
  | .scalar _ _ | .null _ => none

/-- What a label leads to. -/
inductive Target where
  | found (node : Node)
  /-- The label names nothing; the scope, if there is one, stands in. -/
  | fallback (scope : Option Node)

def Target.node? : Target → Option Node
  | found n => some n
  | fallback scope => scope

def Target.isFound : Target → Bool
  | found _ => true
  | fallback _ => false

def resolve (label : String) (scope : Option Node) (source : String) : Target :=
  match scope.bind (find? label · source) with
  | some n => .found n
  | none => .fallback scope

def spanOf (target : Option Node) : Span :=
  match target with
  | some n => n.span
  | none => ⟨0, 0⟩

mutual
def alignEntry (source : String) (scope : Option Node) : Entry → Item
  | ⟨line, children⟩ =>
    let target := (resolve line.label scope source).node?
    let below := if target.isSome then alignEntries source target children else []
    let kind := if line.kind = .expandable && !below.isEmpty then .expandable else .leaf
    ⟨line.label, kind, spanOf target, below⟩

def alignEntries (source : String) (scope : Option Node) : List Entry → List Item
  | [] => []
  | e :: es => alignEntry source scope e :: alignEntries source scope es
end

/-- Aligns a summary with a document. Without content there is nothing to lead to: the spans are
empty and only the outermost lines are kept. -/
def align (summary : List Entry) (root : Option Node) (source : String) : List Item :=
  alignEntries source root summary

mutual
private def unmatchedEntry (source : String) (scope : Option Node) : Entry → List String
  | ⟨line, children⟩ =>
    let target := resolve line.label scope source
    let below := if target.node?.isSome then unmatchedIn source target.node? children else []
    if target.isFound then below else line.label :: below

private def unmatchedIn (source : String) (scope : Option Node) : List Entry → List String
  | [] => []
  | e :: es => unmatchedEntry source scope e ++ unmatchedIn source scope es
end

/-- The labels that name nothing, in the order of the summary. -/
def unmatched (summary : List Entry) (root : Option Node) (source : String) : List String :=
  unmatchedIn source root summary

end YamlOutline.Summary
