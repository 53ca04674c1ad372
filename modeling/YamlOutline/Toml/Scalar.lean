import YamlOutline.Toml.Value

/-!
Values without quotes: truth values, numbers, dates and times. Such a value is one run of letters,
digits and the signs that numbers and times use.
-/

namespace YamlOutline.Toml

private def isDigitIn (base : Nat) (c : Char) : Bool :=
  if c.isDigit then c.toNat - '0'.toNat < base
  else base == 16 && ('a' ≤ c && c ≤ 'f' || 'A' ≤ c && c ≤ 'F')

private def digitValue (c : Char) : Nat :=
  if c.isDigit then c.toNat - '0'.toNat
  else if 'a' ≤ c then c.toNat - 'a'.toNat + 10
  else c.toNat - 'A'.toNat + 10

/-- The digits of a number in which single underscores may stand between digits. -/
private def digits? (base : Nat) : List Char → Option (List Char)
  | [] => none
  | [c] => if isDigitIn base c then some [c] else none
  | c :: '_' :: r => if isDigitIn base c then (digits? base r).map (c :: ·) else none
  | c :: r => if isDigitIn base c then (digits? base r).map (c :: ·) else none

private def natOf (base : Nat) (ds : List Char) : Nat :=
  ds.foldl (fun n d => base * n + digitValue d) 0

/-- The digits of a decimal number, of which only a lone one may be zero at the start. -/
private def wholeDigits? (cs : List Char) : Option (List Char) := do
  let ds ← digits? 10 cs
  if ds.length > 1 && ds.head? == some '0' then none else some ds

private def splitSign : List Char → Bool × List Char
  | '-' :: r => (true, r)
  | '+' :: r => (false, r)
  | r => (false, r)

private def inRange (n : Int) : Bool :=
  -0x8000000000000000 ≤ n && n < 0x8000000000000000

private def integer? (cs : List Char) : Option Value := do
  let n : Int ← match cs with
    | '0' :: 'x' :: r => (digits? 16 r).map (Int.ofNat <| natOf 16 ·)
    | '0' :: 'o' :: r => (digits? 8 r).map (Int.ofNat <| natOf 8 ·)
    | '0' :: 'b' :: r => (digits? 2 r).map (Int.ofNat <| natOf 2 ·)
    | _ =>
      let (negative, r) := splitSign cs
      (wholeDigits? r).map fun ds => if negative then -(natOf 10 ds : Int) else natOf 10 ds
  if inRange n then some (.integer n) else none

/-- Whether digits times a power of ten are too large for a double. -/
private def isTooLarge (n : Nat) (exponent : Int) : Bool :=
  let places : Int := (toString n).length + exponent
  let limit := Nat.pow 2 1024 - Nat.pow 2 970
  if n = 0 || places < 300 then false
  else if places > 310 then true
  else if 0 ≤ exponent then limit ≤ n * Nat.pow 10 exponent.toNat
  else limit * Nat.pow 10 (-exponent).toNat ≤ n

private def exponent? (cs : List Char) : Option Int := do
  let (negative, r) := splitSign cs
  let n : Int := natOf 10 (← digits? 10 r)
  return if negative then -n else n

/-- A number with a fraction, an exponent or both. -/
private def decimal? (cs : List Char) : Option Value := do
  let (negative, r) := splitSign cs
  let mantissa := r.takeWhile fun c => c != 'e' && c != 'E'
  let exponent ← match r.drop mantissa.length with
    | [] => some 0
    | _ :: e => exponent? e
  let whole := mantissa.takeWhile (· != '.')
  let ds ← wholeDigits? whole
  let fraction ← match mantissa.drop whole.length with
    | [] => some []
    | _ :: f => digits? 10 f
  let n := natOf 10 (ds ++ fraction)
  let exponent := exponent - fraction.length
  if whole.length = r.length || isTooLarge n exponent then none
  else some (.decimal negative n exponent)

private def special? (cs : List Char) : Option Value :=
  let (_, r) := splitSign cs
  if r == "inf".toList then some .infinite
  else if r == "nan".toList then some .notNumber
  else none

private def truth? (cs : List Char) : Option Value :=
  if cs == "true".toList then some (.truth true)
  else if cs == "false".toList then some (.truth false)
  else none

/-! ## Dates and times -/

/-- A number of a fixed count of digits. -/
private def fixed? (count : Nat) (cs : List Char) : Option (Nat × List Char) :=
  let ds := cs.take count
  if ds.length = count && ds.all (·.isDigit) then some (natOf 10 ds, cs.drop count) else none

private def expect? (c : Char) : List Char → Option (List Char)
  | d :: r => if d = c then some r else none
  | [] => none

private def daysOf (year month : Nat) : Nat :=
  if month = 2 then
    if year % 4 = 0 && (year % 100 != 0 || year % 400 = 0) then 29 else 28
  else if [4, 6, 9, 11].contains month then 30
  else 31

private def date? (cs : List Char) : Option (List Char) := do
  let (year, cs) ← fixed? 4 cs
  let (month, cs) ← fixed? 2 (← expect? '-' cs)
  let (day, cs) ← fixed? 2 (← expect? '-' cs)
  if 1 ≤ month && month ≤ 12 && 1 ≤ day && day ≤ daysOf year month then some cs else none

private def hourMinute? (cs : List Char) : Option (List Char) := do
  let (hour, cs) ← fixed? 2 cs
  let (minute, cs) ← fixed? 2 (← expect? ':' cs)
  if hour ≤ 23 && minute ≤ 59 then some cs else none

private def time? (cs : List Char) : Option (List Char) := do
  let (second, cs) ← fixed? 2 (← expect? ':' (← hourMinute? cs))
  if second > 60 then none
  else
    match cs with
    | '.' :: r =>
      let rest := r.dropWhile (·.isDigit)
      if rest.length < r.length then some rest else none
    | _ => some cs

private def zone? : List Char → Option (List Char)
  | 'Z' :: r | 'z' :: r => some r
  | '+' :: r | '-' :: r => hourMinute? r
  | r => some r

private def moment? (cs : List Char) : Option Value := do
  let rest ← match date? cs with
    | none => time? cs
    | some [] => some []
    | some (c :: r) => if c = 'T' || c = 't' || c = ' ' then zone? (← time? r) else none
  if rest.isEmpty then some .moment else none

/-- The value that is written without quotes. -/
def Value.ofBare? (cs : List Char) : Option Value :=
  truth? cs <|> special? cs <|> integer? cs <|> decimal? cs <|> moment? cs

private def isBareSign (c : Char) : Bool :=
  c.isAlphanum || c = '_' || c = '+' || c = '-' || c = '.' || c = ':'

/-- Reads a value without quotes. A date and a time may have one space between them. -/
def bareValue? (cs : List Char) : Option (Value × List Char) := do
  let first := cs.takeWhile isBareSign
  let rest := cs.drop first.length
  let run := match date? first, rest with
    | some [], ' ' :: c :: r =>
      if c.isDigit then first ++ ' ' :: (c :: r).takeWhile isBareSign else first
    | _, _ => first
  return (← Value.ofBare? run, cs.drop run.length)

/-! ## The whole part of a number -/

/-- The whole part of the double that is nearest to digits times a power of ten, if it is below a
million. A fraction that is nearer to one than a double can tell counts as one. -/
def wholePart? (n : Nat) (exponent : Int) : Option Nat :=
  let places : Int := (toString n).length + exponent
  if n = 0 || places < 0 then some 0
  else if places > 6 then none
  else
    let num := if 0 ≤ exponent then n * Nat.pow 10 exponent.toNat else n
    let den := if 0 ≤ exponent then 1 else Nat.pow 10 (-exponent).toNat
    let whole := num / den
    let finest := Nat.pow 2 (if whole = 0 then 54 else 53 - whole.log2)
    if den < ((whole + 1) * den - num) * finest then some whole else some (whole + 1)

end YamlOutline.Toml
