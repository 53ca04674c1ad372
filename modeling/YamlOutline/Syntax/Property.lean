import YamlOutline.Syntax.Character

/-!
Anchors, aliases, tags and directives: how many characters each of them takes.
-/

namespace YamlOutline.Syntax

/-- Number of characters of an anchor or alias, its indicator included. -/
def nameLength? : List Char → Option Nat
  | [] => none
  | _ :: r =>
    match (r.takeWhile isName).length with
    | 0 => none
    | n + 1 => some (n + 2)

/-- How many of the next characters satisfy `p`, where a percent sign must begin an escape. -/
def escapedLength? (p : Char → Bool) : List Char → Option Nat
  | [] => some 0
  | c :: r =>
    if c == '%' then
      match r with
      | a :: b :: s =>
        if isHexDigit a && isHexDigit b then (escapedLength? p s).map (· + 3) else none
      | _ => none
    else if p c then (escapedLength? p r).map (· + 1)
    else some 0

/-- Number of characters of a tag's shorthand, after the `!` it begins with: with or without the rest
of a named handle. -/
def shorthandLength? (cs : List Char) : Option Nat :=
  let w := (cs.takeWhile isWord).length
  match cs.drop w with
  | '!' :: u => do
    let n ← escapedLength? isTag u
    if n != 0 then some (w + n + 1) else none
  | _ => do
    let n ← escapedLength? isTag cs
    if n != 0 then some n else none

/-- Number of characters of a tag: `!` alone, `!<uri>`, or a shorthand with or without a named
handle. -/
def tagLength? : List Char → Option Nat
  | [] => none
  | _ :: r =>
    if atGap r then some 1
    else
      match r with
      | '<' :: u => do
        let n ← escapedLength? isUri u
        if n != 0 && (u.drop n).head? == some '>' then some (n + 3) else none
      | _ => (shorthandLength? r).map (· + 1)

/-- Number of characters of a directive's name with its percent sign. -/
def directiveLength? (cs : List Char) : Option Nat :=
  let n := (cs.takeWhile isVisible).length
  if 1 < n && atGap (cs.drop n) then some n else none

/-- Number of characters of a version such as `1.2`. -/
def versionLength? (cs : List Char) : Option Nat :=
  let n := (cs.takeWhile isDigit).length
  match cs.drop n with
  | '.' :: r =>
    let m := (r.takeWhile isDigit).length
    if n != 0 && m != 0 then some (n + 1 + m) else none
  | _ => none

/-- Number of characters of a tag handle: `!`, `!!` or `!name!`. -/
def handleLength? : List Char → Option Nat
  | '!' :: r =>
    let n := (r.takeWhile isWord).length
    if (r.drop n).head? == some '!' then some (n + 2) else if n = 0 then some 1 else none
  | _ => none

/-- Number of characters of a tag's prefix. -/
def tagStemLength? : List Char → Option Nat
  | [] => none
  | c :: r =>
    if c == '!' then (escapedLength? isUri r).map (· + 1)
    else if isTag c || c == '%' then escapedLength? isUri (c :: r)
    else none

/-- How far the parameters of a directive reach in their row. -/
def parametersLength : List Char → (afterBlank : Bool) → (passed kept : Nat) → Nat
  | [], _, _, kept => kept
  | c :: r, afterBlank, passed, kept =>
    if isWhite c then parametersLength r true (passed + 1) kept
    else if c == '#' && afterBlank then kept
    else if isVisible c then parametersLength r false (passed + 1) (passed + 1)
    else kept

end YamlOutline.Syntax
