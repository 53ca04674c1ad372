import YamlOutline.Toml.Quoted
import YamlOutline.Toml.Scalar

/-!
Reads a configuration file. A file with a fault anywhere has no entries at all.
-/

namespace YamlOutline.Toml

private def skipSpaces (cs : List Char) : List Char :=
  cs.dropWhile fun c => c = ' ' || c = '\t'

/-- Leaves out a comment, if there is one. -/
private def skipComment? (cs : List Char) : Option (List Char) :=
  match cs with
  | '#' :: r =>
    let rest := r.dropWhile isPlain
    if rest.isEmpty || (lineBreak? rest).isSome then some rest else none
  | _ => some cs

/-- Leaves out spaces, line breaks and comments. -/
private def skipBlank? : (fuel : Nat) → List Char → Option (List Char)
  | 0, cs => some cs
  | fuel + 1, cs => do
    let rest ← skipComment? (skipSpaces cs)
    match lineBreak? rest with
    | some rest => skipBlank? fuel rest
    | none => return rest

private def isBareKey (c : Char) : Bool :=
  c.isAlphanum || c = '_' || c = '-'

private def simpleKey? (cs : List Char) : Option (String × List Char) :=
  match cs with
  | '"' :: _ | '\'' :: _ => quoted? cs
  | _ =>
    let key := cs.takeWhile isBareKey
    if key.isEmpty then none else some (.ofList key, cs.drop key.length)

/-- How many keys may be joined by dots, and how deep brackets and braces may be nested. -/
def deepest : Nat := 79

/-- Reads at most `count` keys with dots between them: those before the last dot, and the last one.
Spaces around the dots and at both ends are left out. -/
private def keys? : (count : Nat) → List Char → Option ((List String × String) × List Char)
  | 0, _ => none
  | count + 1, cs => do
    let (key, rest) ← simpleKey? (skipSpaces cs)
    match skipSpaces rest with
    | '.' :: rest =>
      let ((keys, last), rest) ← keys? count rest
      return ((key :: keys, last), rest)
    | rest => return (([], key), rest)

private def dottedKey? (cs : List Char) : Option ((List String × String) × List Char) :=
  keys? deepest cs

/-- A reader of values that are nested less deeply. -/
private abbrev ValueReader := List Char → Option (Value × List Char)

/-- The items of an array after its bracket. -/
private def items? (value? : ValueReader) :
    (fuel : Nat) → List Char → Option (List Value × List Char)
  | 0, _ => none
  | fuel + 1, cs => do
    match ← skipBlank? cs.length cs with
    | ']' :: rest => return ([], rest)
    | start =>
      let (v, rest) ← value? start
      match ← skipBlank? rest.length rest with
      | ',' :: rest =>
        let (vs, rest) ← items? value? fuel rest
        return (v :: vs, rest)
      | ']' :: rest => return ([v], rest)
      | _ => none

/-- Reads a key, an equals sign and a value. -/
private def pair? (value? : ValueReader) (cs : List Char) :
    Option ((List String × String × Value) × List Char) := do
  let ((keys, key), rest) ← dottedKey? cs
  match rest with
  | '=' :: rest =>
    let (v, rest) ← value? (skipSpaces rest)
    return ((keys, key, v), skipSpaces rest)
  | _ => none

/-- The pairs of a table in braces, after its first brace and before another pair. -/
private def pairs? (value? : ValueReader) :
    (fuel : Nat) → Open → List Char → Option (Open × List Char)
  | 0, _, _ => none
  | fuel + 1, t, cs => do
    let ((keys, key, v), rest) ← pair? value? cs
    let t ← t.put keys key v
    match rest with
    | ',' :: rest => pairs? value? fuel t rest
    | '\x7d' :: rest => return (t, rest)
    | _ => none

/-- Reads a value that brackets begin; those inside it are read by `value?`. -/
private def bracketed? (value? : ValueReader) : ValueReader
  | '[' :: r => (items? value? (r.length + 1) r).map fun (vs, rest) => (.array vs, rest)
  | '\x7b' :: r =>
    match skipSpaces r with
    | '\x7d' :: rest => some (.table .inline [], rest)
    | start =>
      (pairs? value? (r.length + 1) ⟨.inline, []⟩ start).map fun (t, rest) =>
        (.table .inline t.entries, rest)
  | _ => none

/-- Reads a value in which brackets and braces are nested at most `depth` times. -/
private def value? (depth : Nat) (cs : List Char) : Option (Value × List Char) :=
  match cs with
  | '"' :: _ | '\'' :: _ => (anyQuoted? cs).map fun (t, rest) => (.text t, rest)
  | '[' :: _ | '\x7b' :: _ =>
    match depth with
    | 0 => none
    | depth + 1 => bracketed? (value? depth) cs
  | _ => bareValue? cs

/-- The table that lines add to, by its header. -/
private structure Position where
  top : Open
  header : List String

/-- Reads one line that is not blank. -/
private def line? (p : Position) (cs : List Char) : Option (Position × List Char) := do
  match cs with
  | '[' :: '[' :: r =>
    let ((keys, key), rest) ← dottedKey? r
    match rest with
    | ']' :: ']' :: rest => return (⟨← p.top.startNext keys key, keys ++ [key]⟩, rest)
    | _ => none
  | '[' :: r =>
    let ((keys, key), rest) ← dottedKey? r
    match rest with
    | ']' :: rest => return (⟨← p.top.startTable keys key, keys ++ [key]⟩, rest)
    | _ => none
  | _ =>
    let ((keys, key, v), rest) ← pair? (value? deepest) cs
    return ({ p with top := ← p.top.change false (·.put keys key v) p.header }, rest)

private def lines? : (fuel : Nat) → Position → List Char → Option Entries
  | 0, _, _ => none
  | fuel + 1, p, cs => do
    match ← skipBlank? cs.length cs with
    | [] => return p.top.entries
    | start =>
      let (p, rest) ← line? p start
      let rest ← skipComment? (skipSpaces rest)
      if rest.isEmpty then return p.top.entries
      else lines? fuel p (← lineBreak? rest)

/-- The entries of a file, unless it has a fault. A byte order mark at the start is left out. -/
def entries? (text : String) : Option Entries :=
  let cs := match text.toList with
    | '\uFEFF' :: r => r
    | cs => cs
  lines? (cs.length + 1) ⟨⟨.header, []⟩, []⟩ cs

end YamlOutline.Toml
