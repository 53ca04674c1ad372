import YamlOutline.Syntax.Plain
import YamlOutline.Syntax.Quoted
import YamlOutline.Syntax.Rules

/-!
Flow nodes: scalars, aliases and collections in brackets.
-/

namespace YamlOutline.Syntax

def quoted (style : Quoted.Style) (i : Indent) (s : Layout) :
    Except Fault (Tree × Layout) :=
  match Quoted.length style i.floor s.rest with
  | .ok n =>
    let kind := match style with
      | .single => .singleQuoteScalar
      | .double => .doubleQuoteScalar
    .ok (.leaf kind (s.cursor.spanOf n), .after (s.cursor.drop n))
  | .error n =>
    let t := Layout.after (s.cursor.drop n)
    .error ⟨t.stop, if t.comments.isEmpty then some t else none⟩

def collection (rules : Rules) (isMapping : Bool) (i : Indent) (s : Layout) :
    Except Fault (Tree × Layout) := do
  let (open_, t) := s.settle.token .mark 1
  let (rest, u) ← rules.entries isMapping i t
  return (.node (if isMapping then .flowMapping else .flowSequence) (open_ ++ rest), u)

/-- Whether a plain scalar begins here. A document marker is none inside brackets either. -/
def beginsPlain (inFlow : Bool) (s : Layout) : Bool :=
  Plain.begins inFlow s.rest && !(inFlow && s.atDocument)

/-- A scalar, alias or flow collection, without the comments before it. -/
def flowContent (rules : Rules) (inFlow : Bool) (i : Indent) (s : Layout) :
    Except Fault (Tree × Layout) :=
  if s.at? '[' then collection rules false i s
  else if s.at? '\x7b' then collection rules true i s
  else if s.at? '"' then quoted .double i s
  else if s.at? '\'' then quoted .single i s
  else if s.at? '*' then
    match nameLength? s.rest with
    | some n => .ok (.leaf .alias (s.cursor.spanOf n), .after (s.cursor.drop n))
    | none => s.fault
  else if beginsPlain inFlow s then
    let n := Plain.length inFlow i.floor s.column s.rest
    .ok (.leaf .plainScalar (s.cursor.spanOf n), .after (s.cursor.drop n))
  else s.fault

def Tree.isAlias (t : Tree) : Bool :=
  t.kind == .alias

/-- Whether a colon right after the node is always its colon: the node ends in a quote or a
bracket. -/
def Tree.endsItself (t : Tree) : Bool :=
  match t.kind with
  | .singleQuoteScalar | .doubleQuoteScalar | .flowMapping | .flowSequence => true
  | _ => false

namespace Layout

def atClosing (s : Layout) : Bool :=
  s.at? ']' || s.at? '\x7d'

def atSeparator (s : Layout) : Bool :=
  s.at? ',' || s.atClosing

/-- A colon that no plain scalar could begin with here. -/
def atFlowColon (s : Layout) : Bool :=
  match s.rest with
  | ':' :: r =>
    atGap r || match r with
      | c :: _ => c == ',' || c == ']' || c == '\x7d'
      | [] => true
  | _ => false

end Layout

/-- A node inside brackets, the comments before it included; its properties may stand alone. With it
comes whether a colon may follow without a blank. -/
def flowNode (rules : Rules) (i : Indent) (s : Layout) :
    Except Fault (List Tree × Bool × Layout) := do
  let (p, s) ← properties s
  if !p.trees.isEmpty && (s.atSeparator || s.atFlowColon) then
    return (p.bare, false, s)
  else if !s.within i then s.fault
  else
    let (t, u) ← flowContent rules true i s
    if t.isAlias && !p.trees.isEmpty then s.fault
    else return (p.wrap .flowNode s.comments t, t.endsItself, u)
where
  properties (s : Layout) : Except Fault (Properties × Layout) := do
    if s.atProperty && s.within i then
      let (p, s) ← Properties.read {} s
      if s.atProperty && s.within i then p.read s else return (p, s)
    else return ({}, s)

/-- The closing bracket may also stand in the column of the collection around it. -/
def flowClosing (isMapping : Bool) (i : Indent) (s : Layout) :
    Option (List Tree × Layout) :=
  if s.at? (if isMapping then '\x7d' else ']') && (s.within i || s.isLevel i) then
    some (s.token .mark 1)
  else none

/-- Whether a flow collection ends here, in the column of the collection around it. -/
def resumesFlow (isMapping : Bool) (i : Indent) (s : Layout) : Bool :=
  s.isLevel i && (flowClosing isMapping i s).isSome

/-- The colon and the value after it. -/
def flowValue (rules : Rules) (isMapping : Bool) (i : Indent) (s : Layout) : Step := do
  let (colon, s) := s.token .valueMark 1
  if s.atSeparator then return (colon, s)
  else
    match flowNode rules i s with
    | .ok (value, _, s) => return (colon ++ value, s)
    | .error f =>
      let (skipped, s) ← s.skip i f (resumesFlow isMapping i)
      return (colon ++ skipped, s)

/-- A node or a pair. In a sequence the colon of a pair stands in the row in which the key ends,
unless `anyRow` is set; `mustPair` asks for a pair that has a key. -/
def flowEntry (rules : Rules) (isMapping anyRow mustPair : Bool) (i : Indent) (s : Layout) :
    Except Fault (List Tree × Bool × Layout) := do
  if s.atFlowColon && s.within i && !mustPair then
    let (value, s) ← flowValue rules isMapping i s
    return (value, true, s)
  else
    let (key, endsItself, s) ← flowNode rules i s
    let isColon := if endsItself then s.at? ':' else s.atFlowColon
    let inReach := if anyRow then s.within i else !s.fresh
    if isColon && inReach then
      let (value, s) ← flowValue rules isMapping i s
      return (key ++ value, true, s)
    else if mustPair then s.fault
    else return (key, false, s)

/-- The comments before an entry and the entry itself. -/
def flowItem (rules : Rules) (isMapping : Bool) (i : Indent) (s : Layout) : Step := do
  let comments := s.comments
  let s := s.settle
  if s.atMark '?' && s.within i then
    let (mark, s) := s.token .mark 1
    if s.atSeparator then return (comments ++ [.node .flowPair mark], s)
    else
      let (pair, _, s) ← flowEntry rules isMapping true true i s
      return (comments ++ [.node .flowPair (mark ++ pair)], s)
  else
    let (parts, isPair, s) ← flowEntry rules isMapping isMapping false i s
    return (comments ++ (if isPair then [.node .flowPair parts] else parts), s)

/-- The entries of a flow collection up to its closing bracket. -/
def flowEntries (rules : Rules) (isMapping : Bool) (i : Indent) (s : Layout) : Step := do
  match flowClosing isMapping i s with
  | some closed => return closed
  | none =>
    let (item, s) ← s.orSkip i (resumesFlow isMapping i) (flowItem rules isMapping i s)
    if s.at? ',' && s.within i then
      let (comma, s) := s.token .mark 1
      let (rest, s) ← rules.entries isMapping i s
      return (item ++ comma ++ rest, s)
    else
      match flowClosing isMapping i s with
      | some (mark, s) => return (item ++ mark, s)
      | none =>
        let (skipped, s) ← s.orSkip i (resumesFlow isMapping i) s.fault
        let (mark, s) := s.token .mark 1
        return (item ++ skipped ++ mark, s)

end YamlOutline.Syntax
