import YamlOutline.Editor
import YamlOutline.Outline.Render
import YamlOutline.Parse
import YamlOutline.Summary.Align
import YamlOutline.Text.Escaped

/-!
The tracker holds at most one document and the outline last built for it. It keeps up with the
editor: every event that can concern the document ends with an outline built from scratch.
-/

namespace YamlOutline

/-- Where the labels of outlines come from. -/
inductive LabelSource where
  /-- The mappings and sequences of the document. -/
  | content
  /-- A summary that is aligned with the document. -/
  | summary (text : String)
  deriving DecidableEq, Repr

structure Tracker where
  document : Option Document := none
  source : LabelSource := .content
  roots : List Outline.Item := []

namespace Tracker

open Outline (Item)
open Editor (Event Command)

def withSummary (text : String) : Tracker :=
  { source := .summary text }

def isBoundTo (t : Tracker) (uri : String) : Bool :=
  t.document.any (·.uri == uri)

/-- The item reached from `items` by a path of child indices. -/
def descend? (items : List Item) : List Nat → Option Item
  | [] => none
  | [i] => items[i]?
  | i :: j :: path =>
    match items[i]? with
    | some item => descend? item.children (j :: path)
    | none => none

def node? (t : Tracker) (path : List Nat) : Option Item :=
  descend? t.roots path

/-- What stands below the item at the path; the roots for the empty path. -/
def children (t : Tracker) (path : List Nat) : List Item :=
  match path with
  | [] => t.roots
  | _ :: _ =>
    match t.node? path with
    | some item => item.children
    | none => []

/-- The outline of a document. -/
def build (t : Tracker) (d : Document) : Except ParseError (List Item) :=
  match parse d.text with
  | .error e => .error e
  | .ok root =>
    match t.source with
    | .content => .ok (Outline.build root d.text)
    | .summary text => .ok (Summary.align (Summary.parse text) root d.text)

private def unmatchedNote (label : String) : Log.Record :=
  ⟨.debug, .summary,
    "no match for summary label " ++ Text.escaped label ++ ", using parent span"⟩

/-- What building the outline of a document leaves in the log. -/
def buildNotes (t : Tracker) (d : Document) : List Log.Record :=
  match parse d.text, t.source with
  | .ok root, .summary text =>
    (Summary.unmatched (Summary.parse text) root d.text).map unmatchedNote
  | _, _ => []

variable {σ : Type}

def noteAll (e : Editor σ) (records : List Log.Record) (s : σ) : σ :=
  records.foldl (fun s r => e.note r s) s

/-- Tracks a document. The outline stays as it is until `refresh`. -/
def bind (e : Editor σ) (d : Document) (t : Tracker) (s : σ) : Tracker × σ :=
  ({ t with document := some d }, e.note ⟨.info, .tracker, "outline bound to " ++ d.uri⟩ s)

/-- Tracks no document any more. -/
def unbind (e : Editor σ) (t : Tracker) (s : σ) : Tracker × σ :=
  ({ t with document := none },
    match t.document with
    | some d => e.note ⟨.info, .tracker, "outline unbound from " ++ d.uri⟩ s
    | none => s)

/-- Builds the outline again and has it drawn. A text that is malformed has an empty outline, and
the user is told. -/
def refresh (e : Editor σ) (t : Tracker) (s : σ) : Tracker × σ :=
  match t.document with
  | none => ({ t with roots := [] }, e.outlineChanged s)
  | some d =>
    let s := noteAll e (t.buildNotes d) s
    match t.build d with
    | .ok roots =>
      let text := "outline for " ++ d.uri ++ ":\n" ++ Outline.render roots
      ({ t with roots }, e.outlineChanged (e.note ⟨.debug, .tracker, text⟩ s))
    | .error error =>
      let s := e.note ⟨.warn, .tracker, d.uri ++ ": " ++ error.message⟩ s
      ({ t with roots := [] }, e.outlineChanged (e.showError error.message s))

/-- Tracks the active document if it is YAML, and no document otherwise. -/
def follow (e : Editor σ) (t : Tracker) (s : σ) : Tracker × σ :=
  let (active, s) := e.active s
  let (t, s) :=
    match active with
    | some d => if d.isYaml then t.bind e d s else t.unbind e s
    | none => t.unbind e s
  t.refresh e s

/-- Builds the first outline. -/
def activate (e : Editor σ) (t : Tracker) (s : σ) : Tracker × σ :=
  t.follow e (e.note ⟨.info, .events, "yamltree activated"⟩ s)

/-- Keeps up with an event. -/
def handle (e : Editor σ) (event : Event) (t : Tracker) (s : σ) : Tracker × σ :=
  match event with
  | .activeChanged | .opened _ => t.follow e s
  | .closed uri =>
    if t.isBoundTo uri then
      let (t, s) := t.unbind e s
      t.refresh e s
    else (t, s)
  | .changed uri =>
    if t.isBoundTo uri then
      let (document, s) := e.open? uri s
      let (t, s) :=
        match document with
        | some d => t.bind e d s
        | none => (t, s)
      t.refresh e s
    else (t, s)

/-- Puts the cursor at the start of the line where the span begins. The document may have changed
since the span was taken, so the offset is clamped to it. -/
def revealSpan (e : Editor σ) (span : Nat × Nat) (uri : Option String) (s : σ) : σ :=
  let (document, s) :=
    match uri with
    | some uri => e.open? uri s
    | none => e.active s
  let range := toString span.1 ++ ".." ++ toString span.2
  match document with
  | none => e.note ⟨.warn, .events, "no document to reveal " ++ range ++ " in"⟩ s
  | some d =>
    let position := d.lineStartAt span.1
    let text := "reveal " ++ range ++ " in " ++ d.uri ++ " at line " ++ toString position.line
    e.reveal d.uri position (e.note ⟨.debug, .events, text⟩ s)

/-- Runs a command of the user. -/
def execute (e : Editor σ) (command : Command) (t : Tracker) (s : σ) : Tracker × σ :=
  match command with
  | .showOutline => t.follow e s
  | .reveal span uri => (t, revealSpan e span uri s)

end Tracker

end YamlOutline
