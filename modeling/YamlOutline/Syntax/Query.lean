import YamlOutline.Syntax.Tree

/-!
Queries for nodes of a tree: a list of patterns `(name) @capture`, each of which matches the nodes
of one kind.
-/

namespace YamlOutline.Syntax

/-- The name of a kind in queries. Indicators and the lines of block scalars have none. -/
def Kind.name? : Kind → Option String
  | .stream => "stream"
  | .document => "document"
  | .directive => "reserved_directive"
  | .blockNode => "block_node"
  | .flowNode => "flow_node"
  | .blockMapping => "block_mapping"
  | .blockMappingPair => "block_mapping_pair"
  | .blockSequence => "block_sequence"
  | .blockSequenceItem => "block_sequence_item"
  | .blockScalar => "block_scalar"
  | .flowMapping => "flow_mapping"
  | .flowSequence => "flow_sequence"
  | .flowPair => "flow_pair"
  | .plainScalar => "plain_scalar"
  | .singleQuoteScalar => "single_quote_scalar"
  | .doubleQuoteScalar => "double_quote_scalar"
  | .alias => "alias"
  | .anchor => "anchor"
  | .tag => "tag"
  | .comment => "comment"
  | .error => "ERROR"
  | .valueMark | .mark | .blockText | .missing _ => none

private def namedKinds : List Kind :=
  [.stream, .document, .directive, .blockNode, .flowNode, .blockMapping, .blockMappingPair,
    .blockSequence, .blockSequenceItem, .blockScalar, .flowMapping, .flowSequence, .flowPair,
    .plainScalar, .singleQuoteScalar, .doubleQuoteScalar, .alias, .anchor, .tag, .comment, .error]

def Kind.ofName? (name : String) : Option Kind :=
  namedKinds.find? (·.name? == some name)

/-- The kinds that the patterns of a query ask for, in order. -/
abbrev Query := List Kind

inductive QueryError where
  /-- A pattern names a kind that does not exist; line and column are counted from 1. -/
  | unknownKind (name : String) (line column : Nat)
  deriving DecidableEq, Repr

namespace Query

private def isNameChar (c : Char) : Bool :=
  c.isAlphanum || c == '_'

/-- The names that follow an opening parenthesis, each with the text before it. -/
private def names : List Char → (before : List Char) → List (String × List Char)
  | [], _ => []
  | c :: r, before =>
    let rest := names r (c :: before)
    if c == '(' then (.ofList (r.takeWhile isNameChar), (c :: before).reverse) :: rest else rest

/-- Reads a query, up to the first pattern that names no kind. -/
def read (text : String) : Except QueryError Query :=
  (names text.toList []).mapM fun (name, before) =>
    match Kind.ofName? name with
    | some kind => .ok kind
    | none =>
      let row := (before.reverse.takeWhile (· != '\n')).length
      .error (.unknownKind name (before.count '\n' + 1) (row + 1))

/-- The first node in the order of the source that a pattern matches. -/
def first? (q : Query) (t : Tree) : Option Tree :=
  t.preorder.find? (q.contains ·.kind)

end Query

end YamlOutline.Syntax
