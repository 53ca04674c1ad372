import YamlOutline.Syntax.BlockScalar
import YamlOutline.Syntax.Flow

/-!
Block nodes: collections and scalars that are laid out by indentation.
-/

namespace YamlOutline.Syntax

/-- The place behind the blanks at `p`. -/
def pastBlanks (p : Cursor) : Cursor :=
  p.drop (p.rest.takeWhile isWhite).length

/-- Number of characters of the comment that begins at `p`, if one does. -/
def commentLength (p : Cursor) : Nat :=
  if p.rest.head? == some '#' then (p.rest.takeWhile fun c => !isBreak c && !isNull c).length else 0

/-- Where the row of a header that ends at `p` ends, up to a comment beside the header. -/
def pastComment (p : Cursor) : Cursor :=
  (pastBlanks p).drop (commentLength (pastBlanks p))

/-- The block scalar whose header ends at `p`. A comment beside the header belongs to it, unless that
stands where no line of the scalar could: then the scalar has no lines. -/
def scalarBehind (stated : Option Nat) (floor : Nat) (header : Tree) (p : Cursor) :
    Except Fault (Tree × Layout) :=
  let beside := pastBlanks p
  let m := commentLength beside
  let comment := if m = 0 then [] else [Tree.leaf .comment (beside.spanOf m)]
  let q := pastComment p
  let floor := BlockScalar.textFloor stated floor q.rest
  if m != 0 && beside.column < floor then .ok (.node .blockScalar [header], .after p)
  else
    match BlockScalar.lines floor q.rest with
    | .error k => .error ⟨if k = 0 then p.offset else (q.drop k).offset, none⟩
    | .ok (k, some f) =>
      let text := Tree.leaf .blockText ⟨(q.drop f).offset, (q.drop k).offset⟩
      .ok (.node .blockScalar (header :: comment ++ [text]), .after (q.drop k))
    | .ok (_, none) =>
      .ok (.node .blockScalar (header :: comment), { Layout.after q with stop := p.offset })

def blockScalar (i : Indent) (s : Layout) : Except Fault (Tree × Layout) :=
  match BlockScalar.header? s.rest with
  | none => s.fault
  | some (n, stated) =>
    scalarBehind stated i.floor (.leaf .mark (s.cursor.spanOf n)) (s.cursor.drop n)

/-- Whether the next token is the colon of the key that came before it in the row `row`. -/
def isKeyColon (s : Layout) (row : Nat) : Bool :=
  s.atMark ':' && !s.fresh && s.cursor.row == row

/-- The colon after a key that has no indicator, and the value. -/
def keyValue (rules : Rules) (i : Indent) (key : List Tree) (s : Layout) : Step := do
  let (colon, s) := s.token .valueMark 1
  let (value, s) ← rules.value i false true {} s
  return ([.node .blockMappingPair (key ++ colon ++ value)], s)

/-- The properties that begin with the next token, as far as they stand in its row. The comments
before them are left out. -/
def rowProperties (s : Layout) : Except Fault (Properties × Layout) := do
  if s.atProperty then
    let (p, s) ← Properties.read {} s.settle
    if s.atProperty && !s.fresh then p.read s else return (p, s)
  else return ({}, s)

/-- A key without indicator: a node on one row, with the state after it. -/
def plainKey (rules : Rules) (i : Indent) (s : Layout) :
    Except Fault (List Tree × Layout) := do
  let row := s.cursor.row
  let (p, t) ← rowProperties s
  if isKeyColon t row && !p.trees.isEmpty then return (p.bare, t)
  else if t.fresh && !p.trees.isEmpty then t.fault
  else
    match flowContent rules false i t with
    | .ok (content, u) =>
      if content.isAlias && !p.trees.isEmpty then t.fault
      else if isKeyColon u row then return (p.wrap .flowNode [] content, u)
      else noKey t
    | .error _ => noKey t
where
  noKey (s : Layout) : Except Fault (List Tree × Layout) := do
    let (_, s) ← flowContent rules false (i.oneRow s) s
    s.fault

/-- A pair of a block mapping, without the comments before it. -/
def pair (rules : Rules) (i : Indent) (s : Layout) : Step := do
  let s := s.settle
  if s.atMark '?' then
    let (mark, s) := s.token .mark 1
    let (key, s) ← rules.value i true true {} s
    if s.atMark ':' && s.isLevel i then
      let (colon, s) := s.token .valueMark 1
      let (value, s) ← rules.value i true true {} s
      return ([.node .blockMappingPair (mark ++ key ++ colon ++ value)], s)
    else return ([.node .blockMappingPair (mark ++ key)], s)
  else if s.atMark ':' then
    let (colon, s) := s.token .valueMark 1
    let (value, s) ← rules.value i true true {} s
    return ([.node .blockMappingPair (colon ++ value)], s)
  else
    let (key, s) ← plainKey rules i s
    keyValue rules i key s

/-- The remaining pairs of a block mapping. -/
def blockPairs (rules : Rules) (i : Indent) (s : Layout) : Step := do
  if s.closes i then return (s.comments, s.settle)
  else
    let (first, t) ← s.orSkip i (i.resumes false)
      (if s.isLevel i then pair rules i s else s.fault)
    let (rest, t) ← rules.pairs i t
    return (s.comments ++ first ++ rest, t)

/-- The remaining items of a block sequence. -/
def blockItems (rules : Rules) (i : Indent) (s : Layout) : Step := do
  if s.closes i then return (s.comments, s.settle)
  else
    let (first, t) ← s.orSkip i (i.resumes false)
      (if s.isLevel i && s.atMark '-' then item rules i s else s.fault)
    let (rest, t) ← rules.items i t
    return (s.comments ++ first ++ rest, t)
where
  item (rules : Rules) (i : Indent) (s : Layout) : Step := do
    let (dash, s) := s.settle.token .mark 1
    let (value, s) ← rules.value i true false {} s
    return ([.node .blockSequenceItem (dash ++ value)], s)

/-- The sequence that begins here and works under `j`. -/
def sequence (rules : Rules) (j : Indent) (s : Layout) : Except Fault (Tree × Layout) :=
  .mapError .final do
    let (first, t) ← blockItems.item rules j s
    let (rest, t) ← rules.items j t
    return (.node .blockSequence (first ++ rest), t)

/-- The mapping whose first pair `first` has been read. -/
def mapping (rules : Rules) (j : Indent) (first : Step) : Except Fault (Tree × Layout) :=
  .mapError .final do
    let (first, t) ← first
    let (rest, t) ← rules.pairs j t
    return (.node .blockMapping (first ++ rest), t)

/-- The node at `t` with the properties `q` before it in its row. These stand at `s`, after the
properties `p` of earlier rows. Properties in the row of a key belong to the key. -/
def nodeAfter (rules : Rules) (i : Indent) (compact level : Bool) (p q : Properties)
    (s t : Layout) : Step := do
  let j := i.nested s.column false
  let mayOpen := (compact || s.fresh) && !s.tabbed
  if t.fresh || t.atEnd then
    match p.join? { q with before := s.comments } with
    | some r => rules.value i compact level r t
    | none => t.fault
  else if t.atMark ':' then
    if mayOpen then
      let (m, u) ← mapping rules j (keyValue rules j q.bare t)
      return (p.wrap .blockNode s.comments m, u)
    else t.fault
  else if t.at? '|' || t.at? '>' then
    let (b, u) ← blockScalar i t
    match p.join? { q with before := s.comments } with
    | some r => return (r.wrap .blockNode [] b, u)
    | none => t.fault
  else
    match flowContent rules false i t with
    | .error f =>
      let (skipped, u) ← t.skip i f (i.resumes level)
      match p.join? { q with before := s.comments } with
      | some r =>
        let (rest, u) ← rules.value i compact level r u
        return (skipped ++ rest, u)
      | none => .error f
    | .ok (content, u) =>
      if content.isAlias then t.fault
      else if isKeyColon u s.cursor.row && mayOpen then
        let (m, v) ← mapping rules j (keyValue rules j (q.wrap .flowNode [] content) u)
        return (p.wrap .blockNode s.comments m, v)
      else
        match p.join? { q with before := s.comments } with
        | some r => return (r.wrap .flowNode [] content, u)
        | none => t.fault

/-- The node that begins with a group of properties. -/
def afterProperties (rules : Rules) (i : Indent) (compact level : Bool) (p : Properties)
    (s : Layout) : Step := do
  let (q, t) ← rowProperties s
  nodeAfter rules i compact level p q s t

/-- The node that begins with the next token. -/
def nodeHere (rules : Rules) (i : Indent) (compact level : Bool) (p : Properties)
    (s : Layout) : Step := do
  let comments := s.comments
  let mayOpen := (compact || s.fresh) && !s.tabbed
  if s.atMark '-' then
    if mayOpen then
      let (t, u) ← sequence rules (i.nested s.column true) s
      return (p.wrap .blockNode comments t, u)
    else s.fault
  else if s.atMark '?' || s.atMark ':' then
    if mayOpen then
      let j := i.nested s.column false
      let (t, u) ← mapping rules j (pair rules j s)
      return (p.wrap .blockNode comments t, u)
    else s.fault
  else if s.at? '|' || s.at? '>' then
    let (t, u) ← blockScalar i s
    return (p.wrap .blockNode comments t, u)
  else if s.atProperty then afterProperties rules i compact level p s
  else
    let (content, u) ← flowContent rules false i s
    if isKeyColon u s.cursor.row && mayOpen then
      let j := i.nested s.column false
      let (t, v) ← mapping rules j (keyValue rules j [.node .flowNode [content]] u)
      return (p.wrap .blockNode comments t, v)
    else if content.isAlias && !p.trees.isEmpty then s.fault
    else return (p.wrap .flowNode comments content, u)

/-- The node at an entry, key or value, if there is one. A row that begins no node leaves the place
empty. -/
def blockValue (rules : Rules) (i : Indent) (compact level : Bool) (p : Properties) (s : Layout) :
    Step := do
  if s.closes i then return (p.bare, s)
  else if s.within i then
    match nodeHere rules i compact level p s with
    | .error f =>
      if s.fresh && f.stop == s.stop then return (p.bare, s)
      else
        let (skipped, t) ← s.skip i f (i.resumes level)
        let (rest, t) ← rules.value i compact level p t
        return (skipped ++ rest, t)
    | node => node
  else if level && s.isLevel i && s.atMark '-' then
    let (t, u) ← sequence rules i.level s
    return (p.wrap .blockNode s.comments t, u)
  else return (p.bare, s)

end YamlOutline.Syntax
