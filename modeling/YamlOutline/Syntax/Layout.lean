import YamlOutline.Syntax.Cursor

/-!
Blanks and comments between tokens, and what the grammar asks about them: whether the next token
begins a row, and how far it is indented.
-/

namespace YamlOutline.Syntax

/-- The state between two tokens. -/
structure Layout where
  /-- Where the next token begins. -/
  cursor : Cursor
  /-- The end of the last token, comments not counted. -/
  stop : Nat
  /-- Whether the next token is the first of its row. -/
  fresh : Bool
  /-- Spaces before the next token in its row, up to a tab. -/
  leading : Nat
  /-- Whether a tab stands among the blanks right before the next token. -/
  tabbed : Bool
  /-- Comments since the last token that have no place in the tree yet. -/
  comments : List Tree

namespace Layout

/-- Whether a comment may begin here: at the start of a row, or after a blank. -/
def commentAllowed (fresh gap : Bool) (p : Cursor) : Bool :=
  fresh || gap || p.column == 0

/-- Passes blanks and comments. While a comment is being read, `open?` holds its start. -/
def pass : List Char → Cursor → (fresh gap : Bool) → (leading : Nat) → (tabbed : Bool) →
    (open? : Option Nat) → List Tree → Layout
  | [], p, fresh, _, leading, tabbed, open?, done =>
    ⟨p, 0, fresh, leading, tabbed, done ++ close open? p⟩
  | c :: r, p, fresh, gap, leading, tabbed, open?, done =>
    if isBreak c then pass r p.next true true 0 false none (done ++ close open? p)
    else if isNull c then ⟨p, 0, fresh, leading, tabbed, done ++ close open? p⟩
    else if open?.isSome then pass r p.next fresh gap leading tabbed open? done
    else if c == ' ' then
      pass r p.next fresh true (if tabbed then leading else leading + 1) tabbed none done
    else if c == '\t' then pass r p.next fresh true leading true none done
    else if c == '#' && commentAllowed fresh gap p then
      pass r p.next fresh gap leading tabbed (some p.offset) done
    else ⟨p, 0, fresh, leading, tabbed, done⟩
where
  close (open? : Option Nat) (p : Cursor) : List Tree :=
    match open? with
    | some start => [.leaf .comment ⟨start, p.offset⟩]
    | none => []

/-- The state after a token that ends at `p`. -/
def after (p : Cursor) : Layout :=
  { pass p.rest p false false 0 false none [] with stop := p.offset }

/-- The state at the start of a text. -/
def ofText (cs : List Char) : Layout :=
  let p := Cursor.ofText cs
  { pass p.rest p true true 0 false none [] with stop := p.offset }

def rest (s : Layout) : List Char :=
  s.cursor.rest

def column (s : Layout) : Nat :=
  s.cursor.column

/-- Whether no further token follows. -/
def atEnd (s : Layout) : Bool :=
  match s.rest with
  | [] => true
  | c :: _ => isNull c

/-- Whether the next token begins with `c`. -/
def at? (s : Layout) (c : Char) : Bool :=
  s.rest.head? == some c

/-- Whether the next token is the indicator `c` with a blank, a line break or the end after it. -/
def atMark (s : Layout) (c : Char) : Bool :=
  match s.rest with
  | d :: r => d == c && atGap r
  | [] => false

/-- Whether a document marker begins here. -/
def atDocument (s : Layout) : Bool :=
  s.column == 0 && atDocumentMarker s.rest

/-- The state with the comments taken out. -/
def settle (s : Layout) : Layout :=
  { s with comments := [] }

/-- The next `n` characters as one token, with the comments before it. -/
def token (s : Layout) (kind : Kind) (n : Nat) : List Tree × Layout :=
  (s.comments ++ [.leaf kind (s.cursor.spanOf n)], after (s.cursor.drop n))

end Layout

/-- The reason why a text is no YAML stream: nothing that may follow the token that ends at `stop`
does. -/
structure Fault where
  stop : Nat
  /-- The state after that token, if the text may make sense again from a later row on. -/
  next? : Option Layout

/-- The fault, when the collection that it lies in ends with it: then only the next document makes
sense again. -/
def Fault.final (f : Fault) : Fault :=
  { f with next? := f.next?.filter (·.atDocument) }

/-- Parts of a tree and the state after them. -/
abbrev Step := Except Fault (List Tree × Layout)

def Layout.fault {α : Type} (s : Layout) : Except Fault α :=
  .error ⟨s.stop, some s⟩

end YamlOutline.Syntax
