import YamlOutline.Files.Disk
import YamlOutline.Toml.Reader

/-!
What a user may choose, and the file it is read from.
-/

namespace YamlOutline

structure Settings where
  /-- The extensions of files that count as YAML. -/
  extensions : List String
  /-- How much of the width the outline takes, in percent. -/
  outlineWidth : Nat
  /-- The colours of the editor. -/
  theme : String
  deriving DecidableEq, Repr

namespace Settings

/-- What holds for a user who chooses nothing. -/
def standard : Settings :=
  ⟨["yaml", "yml"], 40, "dracula"⟩

/-- The file with the settings, in the folder where the program runs. -/
def fileName : String := "yamltree.toml"

private def text? : Toml.Value → Option String
  | .text t => some t
  | _ => none

private def texts? : Toml.Value → Option (List String)
  | .array vs => vs.mapM text?
  | _ => none

/-- A whole number of 16 bits. A fraction is cut off, also from a number above minus one. -/
private def small? (v : Toml.Value) : Option Nat := do
  let n : Int ← match v with
    | .integer n => some n
    | .decimal negative digits exponent =>
      (Toml.wholePart? digits exponent).map fun w => if negative then -(w : Int) else w
    | _ => none
  if 0 ≤ n && n < 65536 then some n.toNat else none

/-- The outline takes between a tenth and nine tenths of the width. -/
def clamped (s : Settings) : Settings :=
  { s with outlineWidth := min 90 (max 10 s.outlineWidth) }

/-- A setting is read if its key is there, and a value of another kind is a fault. -/
private def field? (es : Toml.Entries) (key : String) (standard : α)
    (read : Toml.Value → Option α) : Option α :=
  match es.get? key with
  | some v => read v
  | none => some standard

/-- The settings that a text chooses, unless it has a fault. -/
def ofText? (text : String) : Option Settings := do
  let es ← Toml.entries? text
  let extensions ← field? es "file_extensions" standard.extensions texts?
  let outlineWidth ← field? es "outline_width" standard.outlineWidth small?
  let theme ← field? es "theme" standard.theme text?
  return clamped ⟨extensions, outlineWidth, theme⟩

/-- The settings in a file. A file that cannot be read or has a fault chooses nothing. -/
def load (disk : Files.Disk) (path : String) : Settings :=
  match disk.read path with
  | .ok text => (ofText? text).getD standard
  | .error _ => standard

end Settings

end YamlOutline
