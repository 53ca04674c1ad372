import YamlOutline.Node.Basic
import YamlOutline.Syntax.Stream
import YamlOutline.Text.Blank
import YamlOutline.Text.Lines

/-!
From concrete syntax to content: wrappers, anchors, tags and comments go, scalars are decoded, and
every span ends with the last token of its content.
-/

namespace YamlOutline.Node

open Syntax (Tree Kind Span)

/-- The level from which nodes are kept as scalars with their source text. -/
def maxDepth : Nat := 256

/-- The text of a quoted scalar between its quotes. -/
def unquoted (quote : Char) (raw : List Char) : List Char :=
  let body := match Text.trim raw with
    | c :: r => if c = quote then r else c :: r
    | [] => []
  if body.getLast? = some quote then body.dropLast else body

/-- The rows of a scalar without the blanks around them and without empty rows, one blank between
two of them. -/
def fold (raw : List Char) : List Char :=
  [' '].intercalate (((Text.rows raw).map Text.trim).filter (!·.isEmpty))

/-- Two single quotes stand for one. -/
def single : List Char → List Char
  | '\'' :: '\'' :: r => '\'' :: single r
  | c :: r => c :: single r
  | [] => []

/-- What a backslash and the character after it stand for. -/
def escaped (c : Char) : Char :=
  if c = 'n' then '\n'
  else if c = 't' then '\t'
  else if c = 'r' then '\r'
  else if c = '0' then '\x00'
  else c

/-- Resolves the escapes with one character; the digits of a numeric escape stay as they are. -/
def unescape : List Char → List Char
  | '\\' :: c :: r => escaped c :: unescape r
  | c :: r => c :: unescape r
  | [] => []

/-- The value of a scalar with the given source text. -/
def scalarValue (kind : Kind) (raw : List Char) : List Char :=
  match kind with
  | .plainScalar => fold raw
  | .singleQuoteScalar => single (fold (unquoted '\'' raw))
  | .doubleQuoteScalar => unescape (fold (unquoted '"' raw))
  | _ => Text.trim raw

/-- Kinds that stand beside the content of a node. -/
def isAside : Kind → Bool
  | .anchor | .tag | .comment | .mark | .valueMark | .blockText => true
  | _ => false

def isWrapper : Kind → Bool
  | .blockNode | .flowNode => true
  | _ => false

def isScalar : Kind → Bool
  | .plainScalar | .singleQuoteScalar | .doubleQuoteScalar | .blockScalar => true
  | _ => false

/-- The source text of a tree. -/
def raw (source : List Char) (t : Tree) : List Char :=
  (Text.slice? source t.span.start t.span.stop).getD []

def isToken (kind : Kind) (span : Span) : Bool :=
  span.start < span.stop && kind != .comment && kind != .blockText

mutual
/-- The last token that is content: no comment, no line of a block scalar, not empty. -/
def lastToken? : Tree → Option Span
  | .leaf k s => if isToken k s then some s else none
  | .node _ ts => lastTokenOf? ts

def lastTokenOf? : List Tree → Option Span
  | [] => none
  | t :: ts => (lastTokenOf? ts).or (lastToken? t)
end

/-- Where the content of a tree ends. Blanks at the end of its last token do not count. -/
def contentStop (source : List Char) (t : Tree) : Nat :=
  match lastToken? t with
  | some s => s.start + Text.size (Text.trimEnd ((Text.slice? source s.start s.stop).getD []))
  | none => t.span.start

def contentSpan (source : List Char) (t : Tree) : Span :=
  ⟨t.span.start, contentStop source t⟩

mutual
/-- The tree inside the wrappers around it, if they hold more than anchors and tags. -/
def content? : Tree → Option Tree
  | .leaf k s => some (.leaf k s)
  | .node k ts =>
    if isWrapper k || k == .blockSequenceItem then firstContent? ts else some (.node k ts)

def firstContent? : List Tree → Option Tree
  | [] => none
  | t :: ts => if isAside t.kind then firstContent? ts else content? t
end

/-- The text of a key. -/
def keyText (source : List Char) (key : Tree) : String :=
  match content? key with
  | some t =>
    .ofList <|
      if isScalar t.kind then scalarValue t.kind (raw source t) else Text.trim (raw source t)
  | none => ""

/-- The key of a pair: the node before its colon. -/
def pairKey (source : List Char) (parts : List Tree) : String :=
  match (parts.takeWhile (·.kind != .valueMark)).find? (isWrapper ·.kind) with
  | some key => keyText source key
  | none => ""

/-- The tree as a scalar of its source text. -/
def verbatim (source : List Char) (t : Tree) : Node :=
  .scalar (contentSpan source t) (.ofList (Text.trim (raw source t)))

mutual
/-- The node that a tree stands for, at the given level. -/
def ofTree? (source : List Char) (depth : Nat) : Tree → Option Node
  | .leaf k s =>
    if maxDepth ≤ depth then some (verbatim source (.leaf k s))
    else
      let value := scalarValue k (raw source (.leaf k s))
      some (.scalar (contentSpan source (.leaf k s)) (.ofList value))
  | .node k ts =>
    if isWrapper k || k == .blockSequenceItem then inside? source depth ts
    else if maxDepth ≤ depth then some (verbatim source (.node k ts))
    else
      let span := contentSpan source (.node k ts)
      match k with
      | .blockMapping | .flowMapping => some (.mapping span (entriesOf source depth ts))
      | .blockSequence | .flowSequence => some (.sequence span (itemsOf source depth ts))
      | _ => some (.scalar span (.ofList (scalarValue k (raw source (.node k ts)))))

/-- The node that the parts of a wrapper hold. -/
def inside? (source : List Char) (depth : Nat) : List Tree → Option Node
  | [] => none
  | t :: ts => if isAside t.kind then inside? source depth ts else ofTree? source depth t

/-- The value of a pair: the node after its colon. -/
def valueOf? (source : List Char) (depth : Nat) (pastColon : Bool) : List Tree → Option Node
  | [] => none
  | t :: ts =>
    if pastColon && isWrapper t.kind then ofTree? source depth t
    else valueOf? source depth (pastColon || t.kind == .valueMark) ts

def entriesOf (source : List Char) (depth : Nat) : List Tree → List Entry
  | [] => []
  | .leaf _ _ :: ts => entriesOf source depth ts
  | .node k parts :: ts =>
    let span := contentSpan source (.node k parts)
    let rest := entriesOf source depth ts
    if k == .blockMappingPair || k == .flowPair then
      let key := pairKey source parts
      match valueOf? source (depth + 1) false parts with
      | some value => .pair span key value :: rest
      | none => .bare span key :: rest
    else if k == .flowNode then .bare span (keyText source (.node k parts)) :: rest
    else rest

def itemsOf (source : List Char) (depth : Nat) : List Tree → List Node
  | [] => []
  | .leaf _ _ :: ts => itemsOf source depth ts
  | .node k parts :: ts =>
    let span := contentSpan source (.node k parts)
    let rest := itemsOf source depth ts
    if k == .flowPair then
      let key := pairKey source parts
      let entry := match valueOf? source (depth + 2) false parts with
        | some value => Entry.pair span key value
        | none => .bare span key
      .mapping span [entry] :: rest
    else (inside? source (depth + 1) parts).getD (.null span) :: rest
end

end YamlOutline.Node
