import YamlOutline.Syntax.Tree
import YamlOutline.Text.Offset

/-!
The content of a document: mappings, sequences and scalars with their places in the source. Anchors,
tags and comments are left out.
-/

namespace YamlOutline

open Syntax (Span)

mutual
inductive Node where
  /-- Entries in source order. -/
  | mapping (span : Span) (entries : List Entry)
  /-- Items in source order. -/
  | sequence (span : Span) (items : List Node)
  /-- A scalar without quotes and escapes, or any node taken as it stands. -/
  | scalar (span : Span) (value : String)
  /-- A sequence item without content. -/
  | null (span : Span)

/-- One key of a mapping, with its value if it has one. -/
inductive Entry where
  | bare (span : Span) (key : String)
  | pair (span : Span) (key : String) (value : Node)
end

namespace Entry

def span : Entry → Span
  | bare s _ => s
  | pair s _ _ => s

def key : Entry → String
  | bare _ k => k
  | pair _ k _ => k

def value? : Entry → Option Node
  | bare _ _ => none
  | pair _ _ v => some v

end Entry

namespace Node

def span : Node → Span
  | mapping s _ => s
  | sequence s _ => s
  | scalar s _ => s
  | null s => s

/-- Whether the node is a mapping or a sequence. -/
def isContainer : Node → Bool
  | mapping _ _ | sequence _ _ => true
  | scalar _ _ | null _ => false

def isMapping : Node → Bool
  | mapping _ _ => true
  | _ => false

/-- The entries of a mapping; no other node has any. -/
def entries : Node → List Entry
  | mapping _ es => es
  | _ => []

/-- The items of a sequence; no other node has any. -/
def items : Node → List Node
  | sequence _ ns => ns
  | _ => []

/-- The first entry with the key. -/
def entry? (n : Node) (key : String) : Option Entry :=
  n.entries.find? (·.key == key)

def scalar? : Node → Option String
  | scalar _ v => some v
  | _ => none

/-- The source that the node covers, empty if its span does not fit the source. -/
def text (n : Node) (source : String) : String :=
  .ofList ((Text.slice? source.toList n.span.start n.span.stop).getD [])

end Node

end YamlOutline
