import YamlOutline.Error
import YamlOutline.Node.OfTree

/-!
Reading a text: its first document as a node, or where and why it is malformed. One fault anywhere
in the stream makes the whole text malformed.
-/

namespace YamlOutline

open Syntax (Tree Kind Query)

/-- At most `n` characters of the text; a longer one ends in an ellipsis. -/
private def shorten (n : Nat) (cs : List Char) : List Char :=
  if cs.length ≤ n then cs else cs.take n ++ ['…']

/-- The first line of the text that is not blank, without the blanks around it. -/
private def firstLine (cs : List Char) : List Char :=
  (((Text.rows cs).map Text.trim).find? (!·.isEmpty)).getD []

/-- Line and column of a byte offset, counted from 1; the column counts bytes. -/
def linePosition (source : List Char) (offset : Nat) : Nat × Nat :=
  let before := Text.upTo source offset
  let row := (before.reverse.takeWhile (· != '\n')).reverse
  (before.count '\n' + 1, Text.size row + 1)

/-- What the fault at the top of `t` says. -/
def faultCause (source : List Char) (t : Tree) : ParseCause :=
  match t.kind with
  | .missing name => .missing name
  | _ =>
    match firstLine ((Text.slice? source t.span.start t.span.stop).getD []) with
    | [] => .endOfInput
    | line => .unexpected (.ofList (shorten 24 line))

/-- The account of a tree with a fault: the first one in the order of the source. -/
def parseError (source : List Char) (t : Tree) : ParseError :=
  match t.firstFault? with
  | none => ⟨.other "syntax error", 1, 1⟩
  | some f =>
    let (line, column) := linePosition source f.span.start
    ⟨faultCause source f, line, column⟩

/-- The node of the first wrapper among the parts of `t`. -/
def bodyOf (source : List Char) (t : Tree) : Option Node :=
  (t.children.find? fun c => c.kind == .blockNode || c.kind == .flowNode).bind
    (Node.ofTree? source 0)

/-- Reads a text; the first node of a kind in `query` stands for the document. -/
def parseWith (query : String) (text : String) : Except Error (Option Node) := do
  let source := text.toList
  let tree := Tree.ofText source
  if tree.hasFault then throw (.parse (parseError source tree))
  match Query.read query with
  | .error e => throw (.query e)
  | .ok q => return (q.first? tree).bind (bodyOf source)

/-- Reads a text. There is no node if the first document has no content, or there is none. -/
def parse (text : String) : Except ParseError (Option Node) :=
  let source := text.toList
  let tree := Tree.ofText source
  if tree.hasFault then .error (parseError source tree)
  else .ok ((Query.first? [.document] tree).bind (bodyOf source))

end YamlOutline
