/-!
Quoted text in TOML: one line or several, with escapes between double quotes and without them
between single quotes.
-/

namespace YamlOutline.Toml

/-- Characters that may stand in text and in comments. -/
def isPlain (c : Char) : Bool :=
  c = '\t' || ' ' ≤ c && c.toNat != 0x7F

/-- What follows a line break at the start. -/
def lineBreak? : List Char → Option (List Char)
  | '\n' :: r => some r
  | '\r' :: '\n' :: r => some r
  | _ => none

private def hexValue? (c : Char) : Option Nat :=
  if c.isDigit then some (c.toNat - '0'.toNat)
  else if 'a' ≤ c && c ≤ 'f' then some (c.toNat - 'a'.toNat + 10)
  else if 'A' ≤ c && c ≤ 'F' then some (c.toNat - 'A'.toNat + 10)
  else none

/-- The character with the number that the digits write. -/
private def numbered? (ds : List Char) : Option Char := do
  let n ← ds.foldlM (fun n d => (hexValue? d).map (16 * n + ·)) 0
  if n.isValidChar then some (.ofNat n) else none

/-- What the character after a backslash stands for, and the count of digits that belong to it. -/
private def escape? (c : Char) (r : List Char) : Option (Char × Nat) :=
  match c with
  | 'b' => some ('\x08', 0)
  | 't' => some ('\t', 0)
  | 'n' => some ('\n', 0)
  | 'f' => some ('\x0c', 0)
  | 'r' => some ('\r', 0)
  | '"' => some ('"', 0)
  | '\\' => some ('\\', 0)
  | 'u' => if 4 ≤ r.length then (numbered? (r.take 4)).map (·, 4) else none
  | 'U' => if 8 ≤ r.length then (numbered? (r.take 8)).map (·, 8) else none
  | _ => none

private def add (c : Char) (p : List Char × List Char) : List Char × List Char :=
  (c :: p.1, p.2)

/-- The rest of a text in double quotes on one line; `skip` characters belong to an escape that was
read. -/
private def doubleRest? : (skip : Nat) → List Char → Option (List Char × List Char)
  | _, [] => none
  | skip + 1, _ :: r => doubleRest? skip r
  | 0, '"' :: r => some ([], r)
  | 0, '\\' :: c :: r => do
    let (d, skip) ← escape? c r
    return add d (← doubleRest? skip r)
  | 0, c :: r => if isPlain c && c != '\\' then (doubleRest? 0 r).map (add c) else none

/-- The rest of a text in single quotes on one line. -/
private def singleRest? : List Char → Option (List Char × List Char)
  | [] => none
  | c :: r =>
    if c = '\'' then some ([], r)
    else if isPlain c then (singleRest? r).map (add c)
    else none

/-- The quotes at the end of a text of several lines: up to two of five belong to the text. -/
private def closing? (quote : Char) (cs : List Char) : Option (List Char × List Char) :=
  let count := min 5 (cs.takeWhile (· == quote)).length
  if 3 ≤ count then some (.replicate (count - 3) quote, cs.drop count) else none

private def isSpace (c : Char) : Bool :=
  c = ' ' || c = '\t'

/-- The count of spaces and characters of line breaks at the start. -/
private def countBlank : List Char → Nat
  | '\r' :: '\n' :: r => countBlank r + 2
  | c :: r => if isSpace c || c = '\n' then countBlank r + 1 else 0
  | [] => 0

/-- The count of characters to leave out after a backslash at the end of a line: all up to the next
that is no space and no line break. -/
private def foldedBreak? (r : List Char) : Option Nat :=
  let blank := r.takeWhile isSpace
  match lineBreak? (r.drop blank.length) with
  | none => none
  | some rest => some (r.length - (rest.length - countBlank rest))

/-- The rest of a text in triple quotes. A carriage return stands only before a line feed and is
left out. -/
private def longRest? (quote : Char) : (skip : Nat) → List Char → Option (List Char × List Char)
  | _, [] => none
  | skip + 1, _ :: r => longRest? quote skip r
  | 0, c :: r =>
    match closing? quote (c :: r) with
    | some p => some p
    | none =>
      if c = '\n' then (longRest? quote 0 r).map (add c)
      else if c = '\r' then
        if r.head? = some '\n' then longRest? quote 0 r else none
      else if c = '\\' && quote = '"' then
        match foldedBreak? r with
        | some skip => longRest? quote skip r
        | none =>
          match r with
          | [] => none
          | e :: digits => do
            let (d, skip) ← escape? e digits
            return add d (← longRest? quote (skip + 1) r)
      else if isPlain c then (longRest? quote 0 r).map (add c)
      else none

/-- Reads a quoted text on one line. -/
def quoted? : List Char → Option (String × List Char)
  | '"' :: r => (doubleRest? 0 r).map fun (t, rest) => (.ofList t, rest)
  | '\'' :: r => (singleRest? r).map fun (t, rest) => (.ofList t, rest)
  | _ => none

/-- Reads a quoted text on one line or on several. A line break after triple quotes is left out. -/
def anyQuoted? (cs : List Char) : Option (String × List Char) :=
  match cs with
  | a :: b :: c :: r =>
    if (a = '"' || a = '\'') && b = a && c = a then
      (longRest? a 0 ((lineBreak? r).getD r)).map fun (t, rest) => (.ofList t, rest)
    else quoted? cs
  | _ => quoted? cs

end YamlOutline.Toml
