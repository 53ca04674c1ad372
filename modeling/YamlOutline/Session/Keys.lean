import YamlOutline.Session.Basic

/-!
What keys do in each view. Every function answers whether the session ends.
-/

namespace YamlOutline.Session

def fileKey (s : Session) (key : Key) : Bool × Session :=
  match key with
  | .char 'q' => (true, s)
  | .up | .char 'k' => (false, { s with file := s.file - 1 })
  | .down | .char 'j' =>
    (false, if s.file + 1 < s.workspace.documents.length then { s with file := s.file + 1 } else s)
  | .enter => (false, s.openSelected)
  | .char ':' => (false, s.beginCommand)
  | _ => (false, s)

def outlineKey (s : Session) (key : Key) : Bool × Session :=
  match key with
  | .char 'q' => s.quitOrBack
  | .up | .char 'k' => (false, s.moveUp)
  | .down | .char 'j' => (false, s.moveDown)
  | .right | .char 'l' => (false, s.expandOrDescend)
  | .left | .char 'h' => (false, s.collapseOrAscend)
  | .enter => (false, s.revealSelected)
  | .char 'e' => (false, s.revealSelected.enterEditor)
  | .tab => (false, { s with file := s.workspace.active.getD 0, view := .files })
  | .char ':' => (false, s.beginCommand)
  | _ => (false, s)

/-- The editor's keys. What the buffer makes of a key that does not leave it is `edit`. -/
def editorKeyWith (edit : Buffer → Buffer) (s : Session) (key : Key) : Bool × Session :=
  match s.buffer with
  | none => (false, s)
  | some b =>
    match b.mode, key with
    | .normal, .char ':' => (false, s.beginCommand)
    | .normal, .escape => (false, s.exitEditor false)
    | _, _ => (false, { s with buffer := some (edit b) })

def editorKey (s : Session) (key : Key) : Bool × Session :=
  s.editorKeyWith (·.press key) key

def commandKey (s : Session) (key : Key) : Bool × Session :=
  match key with
  | .char c => (false, { s with command := s.command.push c })
  | .backspace => (false, { s with command := .ofList s.command.toList.dropLast })
  | .enter => s.runCommand
  | .escape => (false, s.cancelCommand)
  | _ => (false, s)

/-- The session after a key in the view that is shown, for any way that buffers are edited. -/
def pressWith (edit : Buffer → Buffer) (s : Session) (key : Key) : Bool × Session :=
  match s.view with
  | .files => s.fileKey key
  | .outline => s.outlineKey key
  | .editor => s.editorKeyWith edit key
  | .command => s.commandKey key

/-- The session after a key in the view that is shown. -/
def press (s : Session) (key : Key) : Bool × Session :=
  s.pressWith (·.press key) key

end YamlOutline.Session
