import YamlOutline.Screen.Editing
import YamlOutline.Screen.Listing
import YamlOutline.Screen.Preview
import YamlOutline.Settings

/-!
The whole screen: the panels of the view, and below them help, a message or the command line.
-/

namespace YamlOutline.Screen

/-- The rows of the panel at the foot, as far as there is room. -/
def footHeight (height : Nat) : Nat :=
  min 3 height

/-- A share of the columns in percent, rounded; a half counts as one. -/
def share (percent width : Nat) : Nat :=
  (width * percent + 50) / 100

private def filesHelp : String :=
  "↑/↓: Navigate | Enter: Open | :e PATH Open file | q: Quit"

private def outlineHelp (isMulti : Bool) : String :=
  if isMulti then
    "↑/↓: Navigate | ←/→: Collapse/Expand | Enter: Reveal | e: Edit | Tab: Files | q: Back"
  else
    "↑/↓: Navigate | ←/→: Collapse/Expand | Enter: Reveal | e: Edit | :outline Refresh | q: Quit"

private def editorHelp : String :=
  ":w Save | :x Save & Exit | :q Back (keep edits) | :q! Discard | Esc: Back"

/-- The command line while one is typed, else the message, else help. -/
private def foot (width height : Nat) (s : Session) (help : String) : Picture :=
  if s.view = .command then textPanel width height "Command" (":" ++ s.command)
  else textPanel width height "" (s.workspace.message.getD help)

private def drawFiles (width height : Nat) (s : Session) : Picture :=
  let below := footHeight height
  filesPanel width (height - below) s ++ foot width below s filesHelp

private def drawOutline (outlineWidth width height : Nat) (s : Session) : Picture :=
  let below := footHeight height
  let left := share outlineWidth width
  beside (outlinePanel left (height - below) s)
      (previewPanel (width - left) (height - below) s.workspace) ++
    foot width below s (outlineHelp s.isMulti)

/-- The way to the selected item, the buffer, and help. Where there is little room, the way comes
first and help after it. -/
private def drawEditor (width height : Nat) (s : Session) : Picture × Session :=
  let above := min 3 height
  let below := min 3 (height - above)
  let between := height - above - below
  let title :=
    match s.workspace.activeDocument with
    | some d => "Editing: " ++ d.uri
    | none => ""
  let (middle, s) :=
    match s.buffer with
    | some b =>
      let (picture, b) := bufferPanel width between title b
      (picture, { s with buffer := some b })
    | none => (List.replicate between (List.replicate width .blank), s)
  (textPanel width above "Navigation" (" > ".intercalate s.breadcrumb) ++ middle ++
    foot width below s editorHelp, s)

/-- Draws a session on a screen of the given size. A buffer remembers how far it was scrolled. The
command line is drawn over the view that it was called from. -/
def draw (settings : Settings) (width height : Nat) (s : Session) : Picture × Session :=
  let view := if s.view = .command then s.previous else s.view
  let (picture, s) :=
    match view with
    | .files => (drawFiles width height s, s)
    | .outline | .command => (drawOutline settings.outlineWidth width height s, s)
    | .editor => drawEditor width height s
  (picture.map Row.displayed, s)

end YamlOutline.Screen
