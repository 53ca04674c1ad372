import YamlOutline.Syntax.Character

/-!
Quoted scalars. The text between the quotes is a row of pieces: runs of ordinary characters and
escapes, with blanks and line breaks between them.
-/

namespace YamlOutline.Syntax.Quoted

inductive Style where
  | single | double
  deriving DecidableEq, Repr

def Style.quote : Style → Char
  | .single => '\''
  | .double => '"'

/-- Characters that stand for something else after a backslash. -/
def simpleEscapes : List Char :=
  "0abt\tnvfre \"/\\N_LP".toList

/-- How many hexadecimal digits follow this character after a backslash. -/
def hexDigits (c : Char) : Nat :=
  if c == 'x' then 2 else if c == 'u' then 4 else if c == 'U' then 8 else 0

/-- What the next character belongs to. -/
inductive Mode where
  /-- Between two pieces; the row may have just begun, with this many spaces so far. -/
  | between (fresh : Bool) (leading : Nat) (tabbed : Bool)
  | run
  | escape
  | hex (left : Nat)
  /-- The second of two single quotes. -/
  | doubled
  /-- Characters of a run that may be anything, this many of them. -/
  | taken (left : Nat)

def Mode.isRun : Mode → Bool
  | .run | .taken _ => true
  | _ => false

def between : Mode :=
  .between false 0 false

/-- What a piece that begins with `c` is made of, if one can begin there. -/
def begin (style : Style) (c : Char) (r : List Char) (rowStart : Bool) : Option Mode :=
  if c == '\\' && style == .double then some .escape
  else if c == '\'' && style == .single then some .doubled
  else if rowStart && atDocumentMarker (c :: r) then none
  else if isQuotable c then
    match if rowStart then likeMarker (c :: r) else 0 with
    | 0 => some .run
    | n + 1 => some (.taken n)
  else none

def ends (style : Style) (c : Char) (r : List Char) : Bool :=
  match style with
  | .double => c == '"'
  | .single => c == '\'' && r.head? != some '\''

/-- Whether a piece may begin here: a row after the first must be indented to `floor`. -/
def isIndented (floor : Nat) : Mode → Bool
  | .between fresh leading _ => !fresh || floor ≤ leading
  | _ => true

/-- Follows the text after the opening quote and answers how many characters it takes with the
closing quote, or how many are in order before the first that is not. -/
def follow (style : Style) (floor : Nat) :
    List Char → Mode → (rowStart : Bool) → (passed kept : Nat) → Except Nat Nat
  | [], _, _, _, kept => .error kept
  | c :: r, .escape, _, passed, kept =>
    if isBreak c then follow style floor r (.between true 0 false) true (passed + 1) passed
    else if simpleEscapes.contains c then
      follow style floor r between false (passed + 1) (passed + 1)
    else if hexDigits c = 0 then .error kept
    else follow style floor r (.hex (hexDigits c)) false (passed + 1) kept
  | c :: r, .hex left, _, passed, kept =>
    if isHexDigit c then
      if left ≤ 1 then follow style floor r between false (passed + 1) (passed + 1)
      else follow style floor r (.hex (left - 1)) false (passed + 1) kept
    else .error kept
  | _ :: r, .taken left, _, passed, _ =>
    follow style floor r (if left ≤ 1 then .run else .taken (left - 1)) false (passed + 1)
      (passed + 1)
  | _ :: r, .doubled, _, passed, _ =>
    follow style floor r between false (passed + 1) (passed + 1)
  | c :: r, .run, _, passed, kept =>
    if isBreak c then follow style floor r (.between true 0 false) true (passed + 1) kept
    else if ends style c r then .ok (passed + 1)
    else
      match begin style c r false with
      | none => .error kept
      | some mode =>
        follow style floor r mode false (passed + 1) (if mode.isRun then passed + 1 else kept)
  | c :: r, .between fresh leading tabbed, rowStart, passed, kept =>
    if isBreak c then follow style floor r (.between true 0 false) true (passed + 1) kept
    else if c == ' ' then
      follow style floor r (.between fresh (if tabbed then leading else leading + 1) tabbed) false
        (passed + 1) kept
    else if c == '\t' then
      follow style floor r (.between fresh leading true) false (passed + 1) kept
    else if !isIndented floor (.between fresh leading tabbed) then .error kept
    else if ends style c r then .ok (passed + 1)
    else
      match begin style c r rowStart with
      | none => .error kept
      | some mode =>
        follow style floor r mode false (passed + 1) (if mode.isRun then passed + 1 else kept)

/-- Number of characters of the quoted scalar that begins here, or of the part of it that is in
order. -/
def length (style : Style) (floor : Nat) (cs : List Char) : Except Nat Nat :=
  follow style floor (cs.drop 1) between false 1 1

end YamlOutline.Syntax.Quoted
