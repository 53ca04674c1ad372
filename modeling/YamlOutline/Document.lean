import YamlOutline.Text.Blank
import YamlOutline.Text.LineIndex
import YamlOutline.Text.Lines

/-!
Documents: the text of an open file as it stands at one moment, with the name it is known by and the
tag of its language.
-/

namespace YamlOutline

/-- Line and column in a document, both from 0; the column counts characters. -/
structure Position where
  line : Nat := 0
  column : Nat := 0
  deriving DecidableEq, Repr, Inhabited

structure Document where
  uri : String
  language : String
  text : String
  deriving DecidableEq, Repr, Inhabited

namespace Document

/-- The tag of documents that have an outline. -/
def yamlLanguage : String := "yaml"

def isYaml (d : Document) : Bool :=
  d.language == yamlLanguage

/-- The byte offsets at which the lines begin. -/
def lineStarts (d : Document) : Array Nat :=
  Text.lineStarts d.text.toList

/-- Number of lines. A newline at the end begins one more, and an empty text has one line. -/
def lineCount (d : Document) : Nat :=
  d.lineStarts.size

/-- Where a line stops: before the newline that finishes it, or at the end of the text. -/
def lineStop (d : Document) (index : Nat) : Nat :=
  match d.lineStarts[index + 1]? with
  | some next => next - 1
  | none => Text.size d.text.toList

/-- The text of a line without its line ending, empty beyond the last line. There is none if the line is
no slice of the text. -/
def line? (d : Document) (index : Nat) : Option String :=
  match d.lineStarts[index]? with
  | some start =>
    (Text.slice? d.text.toList start (d.lineStop index)).map fun cs =>
      .ofList (Text.dropEndWhile Text.isReturn cs)
  | none => some ""

def line (d : Document) (index : Nat) : String :=
  (d.line? index).getD ""

/-- The largest offset that is at most `offset`, inside the text and not inside a character. -/
def clampOffset (d : Document) (offset : Nat) : Nat :=
  Text.clamp d.text.toList offset

/-- Where a byte offset lies; one past the end counts as the end. The line is the last that begins at or
before the offset, and the column counts the characters between. There is none if these are no slice of the
text. -/
def positionAt? (d : Document) (offset : Nat) : Option Position := do
  let offset := d.clampOffset offset
  let line := Text.partitionPoint d.lineStarts offset - 1
  let start ← d.lineStarts[line]?
  let before ← Text.slice? d.text.toList start offset
  return ⟨line, before.length⟩

def positionAt (d : Document) (offset : Nat) : Position :=
  (d.positionAt? offset).getD {}

/-- The start of the line in which a byte offset lies. -/
def lineStartAt (d : Document) (offset : Nat) : Position :=
  ⟨(d.positionAt offset).line, 0⟩

end Document

end YamlOutline
