import YamlOutline.Files.Path
import YamlOutline.Files.Tree
import YamlOutline.Text.Offset

/-!
A disk, and how paths lead through it: from the root if they begin with a slash, and else from the
folder where the program runs.
-/

namespace YamlOutline.Files

/-- Why a file cannot be read or written. -/
inductive Failure where
  | missing
  | notFolder
  | isFolder
  | notText
  /-- The path has a null character. -/
  | badPath
  /-- The path or one of its names is longer than a file system takes. -/
  | longName
  deriving DecidableEq, Repr

def Failure.message : Failure → String
  | .missing => "No such file or directory (os error 2)"
  | .notFolder => "Not a directory (os error 20)"
  | .isFolder => "Is a directory (os error 21)"
  | .notText => "stream did not contain valid UTF-8"
  | .badPath => "file name contained an unexpected NUL byte"
  | .longName => "File name too long (os error 36)"

@[ext]
structure Disk where
  root : Item
  /-- The names that lead from the root to the folder where the program runs. -/
  here : List String
  here_isFolder : root.isFolderAt here = true

namespace Disk

/-- A disk with nothing on it but the folder where the program runs and those around it. -/
def ofFolder (here : List String) (entries : List Entry) : Disk where
  root := (Item.folder entries).nest here
  here := here
  here_isFolder := by rw [Item.isFolderAt, Item.get?_nest]; rfl

/-- The bytes that a name may have. -/
def longestName : Nat := 255

/-- The bytes that a path may have. -/
def longestPath : Nat := 4095

/-- Follows the pieces of a path through a tree from the folder at `place`. Above the root is the root. -/
def follow (root : Item) (place : List String) :
    List (List Char) → Except Failure (List String)
  | [] => .ok place
  | p :: ps =>
    match root.get? place with
    | none => .error .missing
    | some (.file _) => .error .notFolder
    | some (.folder _) =>
      if p.isEmpty || p == ['.'] then follow root place ps
      else if p == ['.', '.'] then follow root place.dropLast ps
      else if longestName < Text.size p then .error .longName
      else follow root (place ++ [.ofList p]) ps

/-- The pieces of a path that may lead somewhere. -/
def piecesOf (path : String) : Except Failure (List (List Char)) :=
  let cs := path.toList
  if cs.any (·.toNat == 0) then .error .badPath
  else if longestPath < Text.size cs then .error .longName
  else if cs.isEmpty then .error .missing
  else .ok (Text.pieces '/' cs)

/-- Where a path begins. -/
def start (disk : Disk) (path : String) : List String :=
  if path.toList.head? = some '/' then [] else disk.here

/-- The place that a path leads to. -/
def place (disk : Disk) (path : String) : Except Failure (List String) := do
  let names ← follow disk.root (disk.start path) (← piecesOf path)
  if (disk.root.get? names).isSome then return names else throw .missing

/-- The item that a path leads to. -/
def resolve (disk : Disk) (path : String) : Except Failure Item := do
  let names ← disk.place path
  match disk.root.get? names with
  | some i => return i
  | none => throw .missing

/-- The text of a file. -/
def read (disk : Disk) (path : String) : Except Failure String := do
  match ← disk.resolve path with
  | .folder _ => throw .isFolder
  | .file (.text t) => return t
  | .file .binary => throw .notText

/-- Where a path leads that a file is written to. A path that ends in a slash names no file. -/
def slot (disk : Disk) (path : String) : Except Failure (Slot disk.root) := do
  let ps ← piecesOf path
  let named := ps.reverse.dropWhile List.isEmpty
  let last := named.headD []
  let folder ← follow disk.root (disk.start path) named.tail.reverse
  if isFolder : disk.root.isFolderAt folder = true then
    if named.length < ps.length || last == ['.'] || last == ['.', '.'] then throw .isFolder
    else if longestName < Text.size last then throw .longName
    else if isFree : disk.root.isFolderAt (folder ++ [.ofList last]) = false then
      return { folder, name := .ofList last, isFolder, isFree }
    else throw .isFolder
  else throw (if (disk.root.get? folder).isSome then .notFolder else .missing)

/-- The disk with a file in a slot. -/
def fill (disk : Disk) (slot : Slot disk.root) (content : Content) : Disk where
  root := slot.fill content
  here := disk.here
  here_isFolder := (slot.isFolderAt_fill content disk.here).trans disk.here_isFolder

@[simp] theorem fill_root (disk : Disk) (slot : Slot disk.root) (content : Content) :
    (disk.fill slot content).root = slot.fill content := rfl

/-- The disk after a text was written to a file, which is made if its folder exists. -/
def write (disk : Disk) (path text : String) : Except Failure Disk := do
  return disk.fill (← disk.slot path) (.text text)

end Disk

end YamlOutline.Files
