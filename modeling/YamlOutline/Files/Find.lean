import YamlOutline.Document
import YamlOutline.Files.Disk
import YamlOutline.Log

/-!
From paths to documents. A file is taken whatever its extension; a folder contributes the files
below it that have a YAML extension, hidden ones and those in hidden folders excepted.
-/

namespace YamlOutline.Files

/-- Reads a file as a document that is named as its path is written. -/
def openDocument (disk : Disk) (extensions : List String) (path : String) :
    Except Failure Document := do
  return ⟨path, Path.language path extensions, ← disk.read path⟩

def isHidden (name : String) : Bool :=
  name.toList.head? == some '.'

mutual
/-- The files with one of the extensions below a folder. -/
def below (extensions : List String) (folder : String) : Item → List String
  | .file _ => []
  | .folder es => belowEntries extensions folder es

def belowEntries (extensions : List String) (folder : String) : List Entry → List String
  | [] => []
  | .mk name item :: es =>
    let rest := belowEntries extensions folder es
    let path := Path.join folder name
    if isHidden name then rest
    else
      match item with
      | .folder inner => belowEntries extensions path inner ++ rest
      | .file _ => if Path.hasExtension path extensions then path :: rest else rest
end

/-- A path that leads to neither a file nor a folder. -/
structure NotFound where
  path : String
  deriving DecidableEq, Repr

def NotFound.message (e : NotFound) : String :=
  e.path ++ ": no such file or directory"

/-- The files that one path stands for, in the order of their parts. -/
def expand (disk : Disk) (extensions : List String) (path : String) :
    Except NotFound (List String) :=
  match disk.resolve path with
  | .ok (.folder es) => .ok ((below extensions path (.folder es)).mergeSort Path.le)
  | .ok (.file _) => .ok [path]
  | .error _ => .error ⟨path⟩

/-- The paths without those that repeat the parts of an earlier one. -/
def distinct : List String → List String
  | [] => []
  | p :: ps => p :: (distinct ps).filter (!Path.same p ·)

/-- The files that the paths stand for; without paths, those below the folder where
the program runs. -/
def find (disk : Disk) (extensions : List String) (paths : List String) :
    Except NotFound (List String) := do
  let found ← (if paths.isEmpty then ["."] else paths).mapM (expand disk extensions)
  return distinct found.flatten

/-- The documents at the paths; files that cannot be read are left out and noted. -/
def load (disk : Disk) (extensions : List String) (paths : List String) :
    List Document × List Log.Record :=
  let read := paths.map fun p => (p, openDocument disk extensions p)
  (read.filterMap fun (_, r) => r.toOption,
    read.filterMap fun (p, r) =>
      match r with
      | .ok _ => none
      | .error e => some ⟨.warn, .files, "skipping " ++ p ++ ": " ++ e.message⟩)

end YamlOutline.Files
