import YamlOutline.Text.Lines
import YamlOutline.Text.Lowercase

/-!
Paths as they are written, and what can be told from the writing alone: the parts, the name of the
file and its extension.
-/

namespace YamlOutline.Files.Path

inductive Part where
  | root
  /-- A dot at the start; dots elsewhere do not count. -/
  | here
  | up
  | name (text : String)
  deriving DecidableEq, Repr

def ofPiece? (p : List Char) : Option Part :=
  if p.isEmpty || p == ['.'] then none
  else if p == ['.', '.'] then some .up
  else some (.name (.ofList p))

/-- The parts of a path. Repeated slashes, a slash at the end and dots after the start are left
out. -/
def parts (path : String) : List Part :=
  let ps := Text.pieces '/' path.toList
  let rest := ps.filterMap ofPiece?
  match ps with
  | [] :: _ :: _ => .root :: rest
  | ['.'] :: _ => .here :: rest
  | _ => rest

def Part.rank : Part → Nat
  | .root => 0
  | .here => 1
  | .up => 2
  | .name _ => 3

/-- The order of parts: names by their characters, after everything else. -/
def Part.le : Part → Part → Bool
  | .name a, .name b => a < b || a == b
  | a, b => a.rank ≤ b.rank

/-- The order of paths, part by part. -/
def partsLe : List Part → List Part → Bool
  | [], _ => true
  | _ :: _, [] => false
  | a :: as, b :: bs => if a = b then partsLe as bs else a.le b

def le (p q : String) : Bool :=
  partsLe (parts p) (parts q)

/-- Whether two paths have the same parts. -/
def same (p q : String) : Bool :=
  parts p == parts q

/-- The last part, if it is a name. -/
def fileName? (path : String) : Option String :=
  match (parts path).getLast? with
  | some (.name n) => some n
  | _ => none

/-- What follows the last dot of a file name, unless the name begins with that dot. -/
def extension? (path : String) : Option String := do
  let name ← fileName? path
  let tail := (name.toList.reverse.takeWhile (· != '.')).reverse
  if tail.length + 1 < name.length then some (.ofList tail) else none

/-- Whether the extension of a file is in the list, the case of A to Z left aside. -/
def hasExtension (path : String) (extensions : List String) : Bool :=
  match extension? path with
  | some e => extensions.any (Text.eqIgnoringCase · e)
  | none => false

/-- The language of a file: YAML if its extension in small letters is in the list, and else called
after the extension. -/
def language (path : String) (extensions : List String) : String :=
  let e := Text.lowercase ((extension? path).getD "")
  if extensions.any (Text.eqIgnoringCase · e) then "yaml"
  else if e.isEmpty then "plaintext"
  else e

/-- A name inside a folder. -/
def join (folder name : String) : String :=
  if folder.toList.getLast? = some '/' then folder ++ name else folder ++ "/" ++ name

end YamlOutline.Files.Path
