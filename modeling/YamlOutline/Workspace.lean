import YamlOutline.Editor
import YamlOutline.Files.Find

/-!
The open documents, the focus and the cursor. What the user does here is queued as events and
delivered later, so that the outline is never entered while it calls back.
-/

namespace YamlOutline

open Editor (Event)

structure Workspace where
  documents : List Document
  /-- Index of the document that has the focus. -/
  active : Option Nat
  cursor : Position := {}
  /-- What is shown to the user at the foot of the screen. -/
  message : Option String := none
  extensions : List String
  pending : List Event := []
  outlineChanged : Bool := false
  notes : List Log.Record := []

namespace Workspace

/-- The first document, if there is one, has the focus. -/
def ofDocuments (documents : List Document) (extensions : List String) : Workspace where
  documents
  active := if documents.isEmpty then none else some 0
  extensions

def activeDocument (w : Workspace) : Option Document :=
  w.active.bind (w.documents[·]?)

def indexOf? (w : Workspace) (uri : String) : Option Nat :=
  w.documents.findIdx? (·.uri == uri)

def push (w : Workspace) (event : Event) : Workspace :=
  { w with pending := w.pending ++ [event] }

/-- Moves the focus. -/
def focus (w : Workspace) (index : Nat) : Workspace :=
  if w.documents.length ≤ index || w.active == some index then w
  else { w with active := some index, cursor := {} }.push .activeChanged

/-- Adds a document without moving the focus. -/
def add (w : Workspace) (d : Document) : Workspace :=
  { w with documents := w.documents ++ [d] }.push (.opened d.uri)

/-- Opens a file, unless it is open already, and moves the focus to it. Answers its index. -/
def openFile (w : Workspace) (disk : Files.Disk) (path : String) : Option Nat × Workspace :=
  match w.indexOf? path with
  | some index => (some index, w.focus index)
  | none =>
    match Files.openDocument disk w.extensions path with
    | .ok d => (some w.documents.length, (w.add d).focus w.documents.length)
    | .error e => (none, { w with message := some ("Cannot open " ++ path ++ ": " ++ e.message) })

/-- Closes the document that has the focus. The one after it gets the focus, or else the last. -/
def closeActive (w : Workspace) : Workspace :=
  match w.active with
  | none => w
  | some index =>
    match w.documents[index]? with
    | none => w
    | some closed =>
      let left := w.documents.eraseIdx index
      let active := if left.isEmpty then none else some (min index (left.length - 1))
      { w with documents := left, active, cursor := {} }
        |>.push (.closed closed.uri) |>.push .activeChanged

/-- Replaces the text of the document that has the focus. -/
def commit (w : Workspace) (text : String) : Workspace :=
  match w.active with
  | none => w
  | some index =>
    match w.documents[index]? with
    | none => w
    | some d =>
      if d.text == text then w
      else { w with documents := w.documents.set index { d with text } }.push (.changed d.uri)

/-- The queued events, and the workspace with an empty queue. -/
def takeEvents (w : Workspace) : List Event × Workspace :=
  (w.pending, { w with pending := [] })

/-- Whether the outline was built since the last time this was asked. -/
def takeOutlineChanged (w : Workspace) : Bool × Workspace :=
  (w.outlineChanged, { w with outlineChanged := false })

/-- The document with the name, read from disk if it is not open. -/
def openDocument (w : Workspace) (disk : Files.Disk) (uri : String) :
    Option Document × Workspace :=
  match w.indexOf? uri with
  | some index => (w.documents[index]?, w)
  | none =>
    match Files.openDocument disk w.extensions uri with
    | .ok d => (some d, w.add d)
    | .error _ => (none, w)

/-- Moves the focus to an open document, and the cursor. -/
def reveal (w : Workspace) (uri : String) (position : Position) : Workspace :=
  let w :=
    match w.indexOf? uri with
    | some index => w.focus index
    | none => w
  { w with cursor := position }

/-- The workspace as an editor over the files of a disk. -/
def editor (disk : Files.Disk) : Editor Workspace where
  active w := (w.activeDocument, w)
  open? uri w := w.openDocument disk uri
  showError message w := { w with message := some message }
  outlineChanged w := { w with outlineChanged := true }
  reveal uri position w := w.reveal uri position
  note record w := { w with notes := w.notes ++ [record] }

end Workspace

end YamlOutline
