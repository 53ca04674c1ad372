import YamlOutline.Syntax.Block

/-!
Streams of documents, and the tree of a whole text.
-/

namespace YamlOutline.Syntax

def marker (s : Layout) (c : Char) : Bool :=
  s.column == 0 && isMarker c s.rest

/-- The end of a document with the given parts: `...`, the `---` of the next one, or the end of the
text. -/
def finish (rules : Rules) (parts : List Tree) (s : Layout) : Step := do
  if marker s '.' then
    let (dots, s) := s.token .mark 3
    let (rest, s) ← rules.documents true s
    return (.node .document (parts ++ dots) :: rest, s)
  else if marker s '-' || s.atEnd then
    let (rest, s) ← rules.documents false s
    return (.node .document parts :: rest, s)
  else s.fault

/-- The document whose node, if any, comes next, after what opens the document. Rows behind the node
that belong to no document are an error. -/
def documentFrom (rules : Rules) (opening : List Tree) (s : Layout) : Step := do
  let (body, s) ← rules.value .top false false {} s
  let (behind, s) ←
    if s.atEnd || s.atDocument then pure ([], s)
    else s.orSkip .top (Indent.top.resumes false) s.fault
  finish rules (opening ++ body ++ behind) s

/-- Directives up to the `---` after them, and that marker. -/
def directiveLines (rules : Rules) (s : Layout) : Step := do
  if marker s '-' then return s.token .mark 3
  else if s.at? '%' && s.column == 0 then
    let comments := s.comments
    let name := s.rest.takeWhile isVisible
    let (parts, t) ← s.settle.token? .mark (directiveLength? s.rest)
    let (more, t) ← parameters name t
    if t.fresh then
      let (rest, t) ← rules.directives t
      return (comments ++ .node .directive (parts ++ more) :: rest, t)
    else t.fault
  else s.fault
where
  parameters (name : List Char) (s : Layout) : Step := do
    if name == "%YAML".toList then
      if s.fresh then s.fault else s.token? .mark (versionLength? s.rest)
    else if name == "%TAG".toList then
      if s.fresh then s.fault
      else
        let (handle, s) ← s.token? .mark (handleLength? s.rest)
        if s.fresh then s.fault
        else
          let (stem, s) ← s.token? .mark (tagStemLength? s.rest)
          return (handle ++ stem, s)
    else if s.fresh || s.atEnd then return ([], s)
    else return s.token .mark (parametersLength s.rest false 0 0)

/-- The remaining documents. -/
def streamDocuments (rules : Rules) (bare : Bool) (s : Layout) : Step := do
  let comments := s.comments
  let here := s.settle
  if s.atEnd then return (comments, here)
  else
    let (ts, t) ←
      if marker s '-' then
        let (mark, t) := here.token .mark 3
        documentFrom rules mark t
      else if !bare then s.fault
      else if s.at? '%' && s.column == 0 then
        let (prologue, t) ← rules.directives here
        documentFrom rules prologue t
      else if marker s '.' then finish rules [] here
      else if s.fresh then documentFrom rules [] here
      else s.fault
    return (comments ++ ts, t)

/-- The rules with `n` levels below them. -/
def Rules.ofDepth : Nat → Rules
  | 0 => .none
  | n + 1 =>
    let below := ofDepth n
    { entries := flowEntries below
      value := blockValue below
      items := blockItems below
      pairs := blockPairs below
      documents := streamDocuments below
      directives := directiveLines below }

/-- The documents of a text. Two levels of rules for each character are enough: between two calls
at most one rule takes nothing. -/
def stream (cs : List Char) : Step :=
  (Rules.ofDepth (2 * cs.length + 4)).documents true (.ofText cs)

/-- The tree of a text whose tokens are in order up to `stop` and not further: one error. -/
def Tree.upTo (cs : List Char) (stop : Nat) : Tree :=
  let s := Layout.ofText cs
  let start := if s.cursor.offset < stop then s.cursor.offset else s.stop
  .node .stream [.leaf .error ⟨start, max start stop⟩]

/-- The tree of a text. A text that is no stream gives a tree with one error: an entry that is none
among those of a collection, or all from the first token to the last one in order. -/
def Tree.ofText (cs : List Char) : Tree :=
  match stream cs with
  | .ok (ts, _) => .node .stream ts
  | .error f => .upTo cs f.stop

end YamlOutline.Syntax
