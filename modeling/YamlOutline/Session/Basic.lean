import YamlOutline.Buffer
import YamlOutline.Outline.Rows
import YamlOutline.Tracker
import YamlOutline.Workspace

/-!
A session: the workspace and the outline of its active document, the view that is shown, the rows
and the selection of the outline, and the buffer while a document is edited.
-/

namespace YamlOutline

inductive View where
  /-- The list of open documents. -/
  | files
  /-- The outline beside the text. -/
  | outline
  /-- The text of the active document, to be edited. -/
  | editor
  /-- The command line. -/
  | command
  deriving DecidableEq, Repr

structure Session where
  disk : Files.Disk
  tracker : Tracker
  workspace : Workspace
  /-- Whether there is a list of files to go back to before the session ends. -/
  isMulti : Bool
  view : View
  /-- The view to return to after the command line. -/
  previous : View
  /-- The selection in the list of files. -/
  file : Nat := 0
  rows : List Outline.Row := []
  /-- The selection in the outline. -/
  row : Nat := 0
  expanded : List (List Nat) := []
  buffer : Option Buffer := none
  command : String := ""

namespace Session

open Editor (Command)

/-- A session over open documents. It begins with the list of files if there are several. -/
def new (disk : Files.Disk) (tracker : Tracker) (workspace : Workspace) : Session :=
  let isMulti := 1 < workspace.documents.length
  let view := if isMulti then .files else .outline
  { disk, tracker, workspace, isMulti, view, previous := view }

/-- Lists the rows again and keeps the selection among them. -/
def rebuildRows (s : Session) : Session :=
  let rows := Outline.visibleRows s.expanded s.tracker.roots
  { s with rows, row := min s.row (rows.length - 1) }

/-- Lets the tracker act on the workspace. -/
def track (s : Session)
    (act : Editor Workspace → Tracker → Workspace → Tracker × Workspace) : Session :=
  let (tracker, workspace) := act (Workspace.editor s.disk) s.tracker s.workspace
  { s with tracker, workspace }

/-- Has the tracker keep up with one event. -/
def handle (s : Session) (event : Editor.Event) : Session :=
  s.track fun e t w => t.handle e event w

/-- Delivers all queued events once. -/
def deliver (s : Session) : Session :=
  let (events, workspace) := s.workspace.takeEvents
  events.foldl handle { s with workspace }

/-- Delivers events until none are left, at most `n` times. -/
def deliverAll : Nat → Session → Session
  | 0, s => s
  | n + 1, s => if s.workspace.pending.isEmpty then s else deliverAll n s.deliver

/-- Delivers the queued events and draws the outline again if it was built. Events that come up on
the way are delivered too; they bring no further ones, so two deliveries are enough. -/
def sync (s : Session) : Session :=
  let s := deliverAll (s.workspace.pending.length + 1) s
  let (changed, workspace) := s.workspace.takeOutlineChanged
  let s := { s with workspace }
  if changed then s.rebuildRows else s

/-- Builds the first outline. -/
def start (s : Session) : Session :=
  (s.track fun e t w => t.activate e w).sync

def dispatch (s : Session) (command : Command) : Session :=
  (s.track fun e t w => t.execute e command w).sync

def selected? (s : Session) : Option Outline.Row :=
  s.rows[s.row]?

/-- The labels from the root down to the selected row. -/
def breadcrumb (s : Session) : List String :=
  match s.selected? with
  | none => []
  | some r =>
    (List.range r.path.length).filterMap fun n =>
      (s.tracker.node? (r.path.take (n + 1))).map (·.label)

/-! ### The outline -/

def moveUp (s : Session) : Session :=
  { s with row := s.row - 1 }

def moveDown (s : Session) : Session :=
  if s.row + 1 < s.rows.length then { s with row := s.row + 1 } else s

/-- Shows the children of the selected row, or steps to the first of them if they show. -/
def expandOrDescend (s : Session) : Session :=
  match s.selected? with
  | none => s
  | some r =>
    if !r.expandable then s
    else if r.expanded then s.moveDown
    else { s with expanded := r.path :: s.expanded.filter (· != r.path) }.rebuildRows

/-- Hides the children of the selected row, or steps to its parent if they do not show. -/
def collapseOrAscend (s : Session) : Session :=
  match s.selected? with
  | none => s
  | some r =>
    if r.expanded then { s with expanded := s.expanded.filter (· != r.path) }.rebuildRows
    else
      match s.rows.findIdx? (·.path == r.path.dropLast) with
      | some index => { s with row := index }
      | none => s

/-- Moves the cursor to the selected row. -/
def revealSelected (s : Session) : Session :=
  match s.selected? with
  | none => s
  | some r => s.dispatch (.reveal (r.span.start, r.span.stop) none)

/-! ### Files -/

def resetSelection (s : Session) : Session :=
  { s with expanded := [], row := 0 }

/-- Shows the outline of the document selected in the list of files. -/
def openSelected (s : Session) : Session :=
  let s := s.resetSelection
  let s := { s with workspace := s.workspace.focus s.file }
  { s.sync with view := .outline }

/-- Opens a file and moves the focus to it. -/
def openPath (s : Session) (path : String) : Session :=
  let (index, workspace) := s.workspace.openFile s.disk path
  let s := { s with workspace }
  let s :=
    match index with
    | none => s
    | some index =>
      { s.resetSelection with
        file := index
        isMulti := s.isMulti || decide (1 < workspace.documents.length) }
  s.sync

/-- Closes the active document. -/
def closeActive (s : Session) : Session :=
  let workspace := s.workspace.closeActive
  { s.resetSelection with workspace, file := workspace.active.getD 0 }.sync

/-! ### Editing -/

/-- Begins to edit the active document at the cursor. -/
def enterEditor (s : Session) : Session :=
  match s.workspace.activeDocument with
  | none => s
  | some d =>
    let cursor := s.workspace.cursor
    let buffer :=
      { Buffer.ofText d.text with
        row := min cursor.line (d.lineCount - 1), column := cursor.column }
    { s with buffer := some buffer, view := .editor }

/-- The active document's name and the text that the buffer has for it. -/
def pendingEdit? (s : Session) : Option (String × String) := do
  let buffer ← s.buffer
  let d ← s.workspace.activeDocument
  return (d.uri, matchLineEndings buffer.text d.text)

def commitEdit (s : Session) (text : String) : Session :=
  { s with workspace := s.workspace.commit text }.sync

/-- Writes the buffer to disk and takes it over. -/
def save (s : Session) : Except Files.Failure Session :=
  match s.pendingEdit? with
  | none => .ok s
  | some (uri, text) => do
    let disk ← s.disk.write uri text
    let s := { s with disk }.commitEdit text
    return { s with workspace.message := some "Saved" }

/-- Goes back to the outline. The edits are kept in memory unless `discard` is set. -/
def exitEditor (s : Session) (discard : Bool) : Session :=
  let s :=
    match s.pendingEdit? with
    | some (_, text) => if discard then s else s.commitEdit text
    | none => s
  let s :=
    match s.buffer with
    | some b => { s with workspace.cursor := ⟨b.row, b.column⟩ }
    | none => s
  { s with buffer := none, view := .outline }

/-! ### The command line -/

def beginCommand (s : Session) : Session :=
  { s with previous := s.view, view := .command, command := "", workspace.message := none }

def cancelCommand (s : Session) : Session :=
  { s with view := s.previous, command := "" }

/-- Leaves the outline: back to the list of files if there is one, and else out of the session.
Answers whether the session ends. -/
def quitOrBack (s : Session) : Bool × Session :=
  if s.isMulti && s.view != .files then
    (false, { s with file := s.workspace.active.getD 0, view := .files })
  else (true, s)

/-- The first word of a command line and the text after it. -/
def splitCommand (line : String) : String × String :=
  let cs := Text.trim line.toList
  (.ofList (cs.takeWhile (!Text.isBlank ·)),
    .ofList (Text.trim (cs.dropWhile (!Text.isBlank ·))))

def saveFailed (s : Session) (e : Files.Failure) : Session :=
  { s with workspace.message := some ("Error saving: " ++ e.message) }

/-- Closes the active document, without its edits. The session ends with the last document. -/
def closeCommand (s : Session) : Bool × Session :=
  let s := if s.buffer.isSome then s.exitEditor true else s
  let s := s.closeActive
  (s.workspace.documents.isEmpty, s)

/-- Does what a command line says. Answers whether the session ends. -/
def obey (s : Session) (line : String) : Bool × Session :=
  let inEditor := s.buffer.isSome
  let (name, argument) := splitCommand line
  if name == "w" && inEditor then
    match s.save with
    | .ok s => (false, s)
    | .error e => (false, s.saveFailed e)
  else if name == "x" && inEditor then
    match s.save with
    | .ok s => (false, s.exitEditor false)
    | .error e => (false, s.saveFailed e)
  else if name == "q" && inEditor then (false, s.exitEditor false)
  else if name == "q!" && inEditor then (false, s.exitEditor true)
  else if name == "q" || name == "q!" then s.quitOrBack
  else if name == "outline" then (false, s.dispatch .showOutline)
  else if name == "close" then s.closeCommand
  else if name == "e" && !argument.isEmpty then
    (false, { (s.exitEditor false).openPath argument with view := .outline })
  else if name.isEmpty then (false, s)
  else (false, { s with workspace.message := some ("Unknown command: " ++ line) })

/-- Takes the command line and runs it in the view it was called from. Answers whether the session
ends. -/
def runCommand (s : Session) : Bool × Session :=
  { s with command := "", view := s.previous }.obey s.command

end Session

end YamlOutline
