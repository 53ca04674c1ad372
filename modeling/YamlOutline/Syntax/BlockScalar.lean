import YamlOutline.Syntax.Character

/-!
Block scalars: a header with `|` or `>`, and the indented lines below it.
-/

namespace YamlOutline.Syntax.BlockScalar

def digit? (c : Char) : Option Nat :=
  if '1' ≤ c && c ≤ '9' then some (c.toNat - '0'.toNat) else none

def isChomping (c : Char) : Bool :=
  c == '+' || c == '-'

/-- Number of characters of the header that begins here, and the indentation that it states. -/
def header? : List Char → Option (Nat × Option Nat)
  | [] => none
  | c :: r =>
    if c == '|' || c == '>' then
      let (n, d) := signs r
      if atGap (r.drop n) then some (n + 1, d) else none
    else none
where
  signs : List Char → Nat × Option Nat
    | a :: b :: _ =>
      match digit? a with
      | some d => (if isChomping b then 2 else 1, some d)
      | none => if isChomping a then (match digit? b with
          | some d => (2, some d)
          | none => (1, none)) else (0, none)
    | [a] =>
      match digit? a with
      | some d => (1, some d)
      | none => (if isChomping a then 1 else 0, none)
    | [] => (0, none)

/-- The column of the first line with text, `floor` at least. Of the blank lines before it none may
be shorter than the column found so far, or the search ends there. -/
def detect : List Char → (column floor : Nat) → Nat
  | [], _, floor => floor
  | c :: r, column, floor =>
    if isNull c then floor
    else if c == ' ' then detect r (column + 1) floor
    else if isBreak c then if column < floor then floor else detect r 0 column
    else max floor column

/-- The column from which the lines of a scalar count, in a collection whose content begins at
column `floor`. The text given is what follows the row of the header. -/
def textFloor (stated : Option Nat) (floor : Nat) (body : List Char) : Nat :=
  match stated with
  | some d => floor + d - 1
  | none =>
    match body with
    | c :: r => detect (if isBreak c then r else []) 0 floor
    | [] => floor

inductive Mode where
  | between (leading : Nat) (tabbed : Bool) (column : Nat)
  | line
  /-- Characters of a line that may be anything, this many of them. -/
  | taken (left : Nat)

def rowStart : Mode :=
  .between 0 false 0

/-- Follows the lines after the header. Answers how many characters belong to them, and after how
many the first line begins; or how many are in order before the first that is not. -/
def follow (floor : Nat) :
    List Char → Mode → (passed kept : Nat) → (first : Option Nat) →
      Except Nat (Nat × Option Nat)
  | [], _, _, kept, first => .ok (kept, first)
  | c :: r, .line, passed, kept, first =>
    if isBreak c then follow floor r rowStart (passed + 1) kept first
    else if isVisible c then follow floor r .line (passed + 1) (passed + 1) first
    else if isWhite c then follow floor r .line (passed + 1) kept first
    else if isNull c then .ok (kept, first)
    else .error kept
  | _ :: r, .taken left, passed, _, first =>
    follow floor r (if left ≤ 1 then .line else .taken (left - 1)) (passed + 1) (passed + 1) first
  | c :: r, .between leading tabbed column, passed, kept, first =>
    if isBreak c then follow floor r rowStart (passed + 1) kept first
    else if c == ' ' then
      follow floor r (.between (if tabbed then leading else leading + 1) tabbed (column + 1))
        (passed + 1) kept first
    else if c == '\t' then
      follow floor r (.between leading true (column + 1)) (passed + 1) kept first
    else if isNull c then .ok (kept, first)
    else if column < floor && (c == '#' || !tabbed) then .ok (kept, first)
    else if column == 0 && atDocumentMarker (c :: r) then .ok (kept, first)
    else if floor ≤ leading && isVisible c then
      let mode := match if column = 0 then likeMarker (c :: r) else 0 with
        | 0 => Mode.line
        | n + 1 => .taken n
      follow floor r mode (passed + 1) (passed + 1) (first.or (some passed))
    else .error kept

/-- How many characters of `body`, the text after the row of the header, belong to the lines of the
scalar, and after how many its first line begins; or how many are in order. Nothing but a comment
may stand beside the header. -/
def lines (floor : Nat) (body : List Char) : Except Nat (Nat × Option Nat) :=
  match body with
  | c :: _ =>
    if isBreak c || isNull c then follow floor body .line 0 0 none else .error 0
  | [] => .ok (0, none)

end YamlOutline.Syntax.BlockScalar
