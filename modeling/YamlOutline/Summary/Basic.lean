import YamlOutline.Outline.Basic
import YamlOutline.Text.Lines

/-!
Summaries: indented lists of labels, one to a line. `>` marks a line with children to show, `-` one
without, and a line without a marker counts as the former. The indentation is the number of blank
characters before the label.
-/

namespace YamlOutline.Summary

open Outline (Kind)

structure Line where
  kind : Kind
  label : String
  indent : Nat
  deriving DecidableEq, Repr, Inhabited

/-- A line and the lines below it. -/
structure Entry where
  line : Line
  children : List Entry
  deriving Repr, Inhabited

/-- Reads a line, if it is not blank. -/
def Line.ofText? (cs : List Char) : Option Line :=
  let indent := (cs.takeWhile Text.isBlank).length
  match Text.trimStart cs with
  | [] => none
  | c :: r =>
    let (kind, label) :=
      if c = '>' then (Kind.expandable, r)
      else if c = '-' then (Kind.leaf, r)
      else (Kind.expandable, c :: r)
    some ⟨kind, .ofList (Text.trim label), indent⟩

/-- The lines of a text that are not blank. -/
def linesOf (text : String) : List Line :=
  (Text.rows text.toList).filterMap Line.ofText?

/-- A summary read up to some line. -/
structure Reading where
  /-- The entries that may get further children, the innermost first. -/
  waiting : List Entry := []
  /-- The trees that get none. -/
  complete : List Entry := []

def Entry.adopt (parent child : Entry) : Entry :=
  { parent with children := parent.children ++ [child] }

/-- Closes waiting entries, the innermost first, up to one that stays. What is closed becomes the
last child of the entry around it, or else the last tree. -/
def closeWhile (closes : Line → Bool) (complete : List Entry) (e : Entry) : List Entry → Reading
  | [] => if closes e.line then ⟨[], complete ++ [e]⟩ else ⟨[e], complete⟩
  | parent :: outer =>
    if closes e.line then closeWhile closes complete (parent.adopt e) outer
    else ⟨e :: parent :: outer, complete⟩

def Reading.close (r : Reading) (closes : Line → Bool) : Reading :=
  match r.waiting with
  | [] => r
  | e :: outer => closeWhile closes r.complete e outer

/-- Reads a line. It closes the entries that are not indented less, and is a child of the next one. -/
def Reading.add (r : Reading) (l : Line) : Reading :=
  let r := r.close (l.indent ≤ ·.indent)
  { r with waiting := ⟨l, []⟩ :: r.waiting }

/-- Reads a summary: every line stands below the nearest line before it that is indented less. -/
def parse (text : String) : List Entry :=
  (((linesOf text).foldl Reading.add {}).close fun _ => true).complete

end YamlOutline.Summary
