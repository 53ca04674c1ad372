/-!
Concrete syntax trees of YAML streams. A leaf stands for a piece of the source; an inner node has
no span of its own and reaches from its first leaf to its last.
-/

namespace YamlOutline.Syntax

/-- A range of byte offsets, the end exclusive. -/
structure Span where
  start : Nat
  stop : Nat
  deriving DecidableEq, Repr, Inhabited

/-- What a piece of the tree is. The kinds up to `flowPair` have children, the others are leaves. -/
inductive Kind where
  | stream | document | directive
  | blockNode | flowNode
  | blockMapping | blockMappingPair | blockSequence | blockSequenceItem | blockScalar
  | flowMapping | flowSequence | flowPair
  | plainScalar | singleQuoteScalar | doubleQuoteScalar | alias
  | anchor | tag | comment
  /-- The `:` between a key and its value. -/
  | valueMark
  /-- Any other indicator or marker. -/
  | mark
  /-- The lines of a block scalar, as opposed to its header. -/
  | blockText
  /-- A stretch of text that fits no rule. -/
  | error
  /-- An expected token that the source does not have. -/
  | missing (name : String)
  deriving DecidableEq, Repr, Inhabited

inductive Tree where
  | leaf (kind : Kind) (span : Span)
  | node (kind : Kind) (children : List Tree)
  deriving Repr, Inhabited

namespace Tree

def kind : Tree → Kind
  | leaf k _ => k
  | node k _ => k

def children : Tree → List Tree
  | leaf _ _ => []
  | node _ ts => ts

mutual
/-- The spans of the leaves from left to right. -/
def leaves : Tree → List (Kind × Span)
  | leaf k s => [(k, s)]
  | node _ ts => leavesList ts

def leavesList : List Tree → List (Kind × Span)
  | [] => []
  | t :: ts => leaves t ++ leavesList ts
end

mutual
def start? : Tree → Option Nat
  | leaf _ s => some s.start
  | node _ ts => startList? ts

def startList? : List Tree → Option Nat
  | [] => none
  | t :: ts => (start? t).or (startList? ts)
end

mutual
def stop? : Tree → Option Nat
  | leaf _ s => some s.stop
  | node _ ts => stopList? ts

def stopList? : List Tree → Option Nat
  | [] => none
  | t :: ts => (stopList? ts).or (stop? t)
end

/-- From the start of the first leaf to the end of the last one. -/
def span (t : Tree) : Span :=
  ⟨t.start?.getD 0, t.stop?.getD 0⟩

/-- Whether the tree is itself the place where the source went wrong. -/
def isFault (t : Tree) : Bool :=
  match t.kind with
  | .error => true
  | .missing _ => true
  | _ => false

mutual
/-- Whether a fault stands at the tree or anywhere below it. -/
def hasFault : Tree → Bool
  | leaf k s => isFault (leaf k s)
  | node k ts => isFault (node k []) || hasFaultList ts

def hasFaultList : List Tree → Bool
  | [] => false
  | t :: ts => hasFault t || hasFaultList ts
end

mutual
/-- The first fault from left to right, outermost first. Parts without a fault are not entered. -/
def firstFault? : Tree → Option Tree
  | leaf k s => if isFault (leaf k s) then some (leaf k s) else none
  | node k ts => if isFault (node k ts) then some (node k ts) else firstFaultList? ts

def firstFaultList? : List Tree → Option Tree
  | [] => none
  | t :: ts => if hasFault t then (firstFault? t).or (firstFaultList? ts) else firstFaultList? ts
end

mutual
/-- All parts of the tree, each before its children. -/
def preorder : Tree → List Tree
  | leaf k s => [leaf k s]
  | node k ts => node k ts :: preorderList ts

def preorderList : List Tree → List Tree
  | [] => []
  | t :: ts => preorder t ++ preorderList ts
end

end Tree

end YamlOutline.Syntax
