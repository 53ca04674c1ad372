import YamlOutline.Syntax.Layout
import YamlOutline.Syntax.Plain
import YamlOutline.Syntax.Property

/-!
What the rules of the grammar share: the indentation they work under, and the record of the rules
that call each other. The record is filled level by level, so that a rule of one level uses only
those of the level below.
-/

namespace YamlOutline.Syntax

/-- The collection that a rule works inside. `floor` is one more than the column of its entries, and
`outer` the same for the collection around it; both are 0 at the top of a document. -/
structure Indent where
  floor : Nat
  outer : Nat
  isSequence : Bool

namespace Indent

/-- The top of a document. -/
def top : Indent := ⟨0, 0, false⟩

/-- A collection inside `i` whose entries begin at `column`. -/
def nested (i : Indent) (column : Nat) (isSequence : Bool) : Indent :=
  ⟨column + 1, i.floor, isSequence⟩

/-- The sequence below a key in the column of the key. -/
def level (i : Indent) : Indent :=
  ⟨i.floor, i.floor, true⟩

/-- What keeps the next node in its row: no later row is indented so far. -/
def oneRow (i : Indent) (s : Layout) : Indent :=
  { i with floor := s.column + s.rest.length + 1 }

end Indent

namespace Layout

/-- Whether the next token stands in the row of the last one, or is indented more than the entries
of the collection. -/
def within (s : Layout) (i : Indent) : Bool :=
  !s.fresh || i.floor ≤ s.leading

/-- Whether the next token begins a row in the column of the collection's entries. -/
def isLevel (s : Layout) (i : Indent) : Bool :=
  s.fresh && s.leading + 1 == i.floor && !s.tabbed

/-- Whether the next token stands too far left to belong to the collection. The sequence below a key
in the key's own column ends at anything that is no dash. -/
def dedents (s : Layout) (i : Indent) : Bool :=
  s.column < i.floor && !s.tabbed &&
    if i.isSequence && i.floor == i.outer then s.column + 1 < i.floor || !s.at? '-'
    else s.column < i.outer

/-- Whether the collection has no further entries. -/
def closes (s : Layout) (i : Indent) : Bool :=
  s.atEnd || s.atDocument || s.dedents i

/-- Whether a later row than the first one of the text begins with the next token. -/
def beginsRow (s : Layout) : Bool :=
  s.fresh && s.cursor.row != 0

/-- Passes whole rows that are indented more than the entries of the collection. -/
def pastDeeper (i : Indent) : Nat → Layout → Layout
  | 0, s => s
  | n + 1, s =>
    if s.beginsRow && i.floor ≤ s.leading && !s.tabbed && !s.atEnd && !s.atDocument then
      let row := s.rest.takeWhile fun c => !isBreak c && !isNull c
      pastDeeper i n (.after (s.cursor.drop row.length))
    else s

/-- Goes on after the fault `f` with the next row that is not indented more than the entries of the
collection, if it begins with what is welcome. All from `s` up to that row stands as one error. -/
def skip (s : Layout) (i : Indent) (f : Fault) (welcome : Layout → Bool) : Step :=
  match f.next? with
  | some t =>
    let u := pastDeeper i t.rest.length t
    if u.beginsRow && !u.atEnd && s.cursor.offset < u.stop && welcome u then
      .ok ([.leaf .error ⟨s.cursor.offset, u.stop⟩], u)
    else .error (if u.atDocument then ⟨u.stop, some u⟩ else f)
  | none => .error f

/-- What `step` reads at `s`, or an error where that fails and a later row is welcome. -/
def orSkip (s : Layout) (i : Indent) (welcome : Layout → Bool) (step : Step) : Step :=
  match step with
  | .error f => s.skip i f welcome
  | _ => step

/-- Whether a key of a block mapping begins with the next token. -/
def atKey (s : Layout) : Bool :=
  s.atMark '?' || s.atMark ':' || "&!*\"'[\x7b".toList.any s.at? || Plain.begins false s.rest

end Layout

/-- Whether the collection may end at the next token or go on there with another entry. At the top
of a document that is a document marker. With `level` also the sequence below a key in the column of
the key may begin there. -/
def Indent.resumes (i : Indent) (level : Bool) (s : Layout) : Bool :=
  if s.atDocument then i.floor == 0 || s.dedents i
  else
    s.dedents i ||
      s.isLevel i && if s.atMark '-' then i.isSequence || level else !i.isSequence && s.atKey

/-- Anchors and tags that wait for the node they belong to, with the comments between them. -/
structure Properties where
  before : List Tree := []
  trees : List Tree := []
  anchor : Bool := false
  tag : Bool := false

/-- The rules that call each other. -/
structure Rules where
  /-- The entries of a flow collection up to its closing bracket. -/
  entries : (isMapping : Bool) → Indent → Layout → Step
  /-- The node at an entry, key or value, if there is one. `compact` allows a block collection to
  begin in the row of its indicator, `level` a sequence in the column of the key. -/
  value : Indent → (compact level : Bool) → Properties → Layout → Step
  /-- The remaining items of a block sequence. -/
  items : Indent → Layout → Step
  /-- The remaining pairs of a block mapping. -/
  pairs : Indent → Layout → Step
  /-- The remaining documents. `bare` allows one without `---`. -/
  documents : (bare : Bool) → Layout → Step
  /-- Directives up to the `---` after them. -/
  directives : Layout → Step

/-- Rules that accept nothing. -/
def Rules.none : Rules where
  entries _ _ s := s.fault
  value _ _ _ _ s := s.fault
  items _ s := s.fault
  pairs _ s := s.fault
  documents _ s := s.fault
  directives s := s.fault

namespace Layout

/-- The next `n?` characters as a token, if there are so many. -/
def token? (s : Layout) (kind : Kind) (n? : Option Nat) : Step :=
  match n? with
  | some n => .ok (s.token kind n)
  | .none => s.fault

def atProperty (s : Layout) : Bool :=
  s.at? '&' || s.at? '!'

/-- The anchor or tag that is the next token. -/
def property (s : Layout) : Step :=
  if s.at? '&' then s.token? .anchor (nameLength? s.rest) else s.token? .tag (tagLength? s.rest)

end Layout

namespace Properties

/-- Adds the anchor or tag that is the next token; a node has at most one of each. -/
def read (p : Properties) (s : Layout) : Except Fault (Properties × Layout) := do
  if if s.at? '&' then p.anchor else p.tag then s.fault
  else
    let (ts, t) ← s.property
    let isFirst := p.trees.isEmpty
    return ({
      before := if isFirst then p.before ++ s.comments else p.before
      trees := if isFirst then ts.drop s.comments.length else p.trees ++ ts
      anchor := p.anchor || s.at? '&'
      tag := p.tag || !s.at? '&' }, t)

/-- The properties of two groups, if they may stand at one node. -/
def join? (p q : Properties) : Option Properties :=
  if (p.anchor && q.anchor) || (p.tag && q.tag) then none
  else if p.trees.isEmpty then some { q with before := p.before ++ q.before }
  else some {
    before := p.before
    trees := p.trees ++ q.before ++ q.trees
    anchor := p.anchor || q.anchor
    tag := p.tag || q.tag }

/-- The node that carries the properties: `content` after them and the comments before it. -/
def wrap (p : Properties) (kind : Kind) (comments : List Tree) (content : Tree) : List Tree :=
  if p.trees.isEmpty then p.before ++ comments ++ [.node kind [content]]
  else p.before ++ [.node kind (p.trees ++ comments ++ [content])]

/-- The node that consists of properties alone. -/
def bare (p : Properties) : List Tree :=
  if p.trees.isEmpty then p.before else p.before ++ [.node .flowNode p.trees]

end Properties

end YamlOutline.Syntax
