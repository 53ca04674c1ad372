/-!
What a configuration file in TOML holds: values under keys, and the rules by which headers, dotted
keys and inline tables may add to a table.
-/

namespace YamlOutline.Toml

/-- How a table came to be, which decides what may still add to it. -/
inductive Origin where
  /-- Named by a header. -/
  | header
  /-- Passed by a longer header. -/
  | implied
  /-- Passed by a dotted key. -/
  | dotted
  /-- Written in braces, and complete. -/
  | inline
  deriving DecidableEq, Repr

inductive Value where
  | text (text : String)
  | integer (value : Int)
  /-- A number with a fraction or an exponent: the digits times a power of ten. -/
  | decimal (negative : Bool) (digits : Nat) (exponent : Int)
  | infinite
  | notNumber
  | truth (value : Bool)
  /-- A date, a time of day or both. -/
  | moment
  | array (items : List Value)
  | table (origin : Origin) (entries : List (String × Value))
  /-- Tables under one header in double brackets. -/
  | tables (items : List (List (String × Value)))
  deriving Repr

/-- The values of a table under their keys, in the order of writing. -/
abbrev Entries := List (String × Value)

namespace Entries

def get? (es : Entries) (key : String) : Option Value :=
  es.lookup key

/-- The entries with one value put in the place of the key's, or at the end. -/
def set (es : Entries) (key : String) (v : Value) : Entries :=
  match es with
  | [] => [(key, v)]
  | (k, w) :: es => if k = key then (k, v) :: es else (k, w) :: Entries.set es key v

end Entries

/-- A table that is being read. -/
structure Open where
  origin : Origin
  entries : Entries

namespace Open

/-- Changes the table that keys lead to, and makes the tables on the way. A dotted key does not
enter a table with a header of its own, and nothing enters what is written in braces. Of several
tables under one header the last is meant. -/
def change (byDots : Bool) (f : Open → Option Open) (t : Open) : List String → Option Open
  | [] => f t
  | key :: keys =>
    match t.entries.get? key with
    | none => do
      let inner ← change byDots f ⟨if byDots then .dotted else .implied, []⟩ keys
      return { t with entries := t.entries.set key (.table inner.origin inner.entries) }
    | some (.table o es) =>
      if o = .inline || byDots && o = .header then none
      else do
        let inner ← change byDots f ⟨o, es⟩ keys
        return { t with entries := t.entries.set key (.table inner.origin inner.entries) }
    | some (.tables ts) => do
      let inner ← change byDots f ⟨.header, ts.getLastD []⟩ keys
      return { t with entries := t.entries.set key (.tables (ts.dropLast ++ [inner.entries])) }
    | some _ => none

/-- Puts a value under a dotted key, given as what stands before the last dot and what stands after
it. The key must be new, and the table before the last dot made by dots alone. -/
def put (t : Open) (keys : List String) (key : String) (v : Value) : Option Open :=
  t.change true (fun t =>
    if !keys.isEmpty && t.origin != .dotted then none
    else if (t.entries.get? key).isSome then none
    else some { t with entries := t.entries.set key v }) keys

/-- Starts a table under a header, which may have been passed but not named before. -/
def startTable (t : Open) (keys : List String) (key : String) : Option Open :=
  t.change false (fun t =>
    match t.entries.get? key with
    | none => some { t with entries := t.entries.set key (.table .header []) }
    | some (.table .implied es) => some { t with entries := t.entries.set key (.table .header es) }
    | some _ => none) keys

/-- Starts one more table under a header in double brackets. -/
def startNext (t : Open) (keys : List String) (key : String) : Option Open :=
  t.change false (fun t =>
    match t.entries.get? key with
    | none => some { t with entries := t.entries.set key (.tables [[]]) }
    | some (.tables ts) => some { t with entries := t.entries.set key (.tables (ts ++ [[]])) }
    | some _ => none) keys

end Open

end YamlOutline.Toml
