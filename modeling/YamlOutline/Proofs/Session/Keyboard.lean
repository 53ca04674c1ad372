import YamlOutline.Proofs.Session.Placement
import YamlOutline.Session.Keys

/-! A session at the keyboard. Whatever keys are pressed, a buffer is open exactly where one is
edited, it belongs to the active document, and every index points into its list. How the editor
changes its buffer is left open, and so is what else happens to the disk. -/

namespace YamlOutline.Session

/-- A key, and what else decides what comes of it: the disk as it is by then, and what the editor
makes of the buffer if the key is for the buffer. -/
structure Press where
  key : Key
  disk : Files.Disk
  edit : Buffer → Buffer

/-- A key for the editor that a session has of its own. -/
def Press.own (disk : Files.Disk) (key : Key) : Press :=
  ⟨key, disk, (·.press key)⟩

/-- The session after a key, also if the key asks for its end. -/
def Press.run (p : Press) (s : Session) : Session :=
  ({ s with disk := p.disk }.pressWith p.edit p.key).2

/-- A session and the name of the document that its buffer was loaded from. -/
structure Sitting where
  session : Session
  loaded : Option String := none

namespace Sitting

/-- Goes on to another session. The name is kept as long as a buffer is open, and taken from the
active document when one opens. -/
def next (t : Sitting) (s : Session) : Sitting where
  session := s
  loaded :=
    if s.buffer.isNone then none
    else if t.session.buffer.isSome then t.loaded
    else s.workspace.activeDocument.map Document.uri

def press (t : Sitting) (p : Press) : Sitting :=
  t.next (p.run t.session)

def pressAll (t : Sitting) (ps : List Press) : Sitting :=
  ps.foldl press t

/-- The first outline of some open documents is shown, and no key was pressed yet. -/
def begun (disk : Files.Disk) (tracker : Tracker) (documents : List Document)
    (extensions : List String) : Sitting :=
  { session := started disk tracker documents extensions }

end Sitting

variable {s s' : Session}

/-- Whether a buffer is open and what the active document is called did not change. -/
structure Attends (s s' : Session) : Prop where
  buffer : s'.buffer.isSome = s.buffer.isSome
  name : s'.workspace.activeDocument.map Document.uri = s.workspace.activeDocument.map Document.uri

/-- What a key can do to views and buffer. -/
inductive Turn (s s' : Session) : Prop where
  /-- One of the lists is shown, and nothing is edited. -/
  | away (buffer : s'.buffer = none) (view : s'.view = .files ∨ s'.view = .outline)
  /-- The active document is loaded, with the cursor on one of its lines. -/
  | loads (d : Document) (closed : s.buffer = none) (before : s.workspace.activeDocument = some d)
      (after : s'.workspace.activeDocument = some d)
      (buffer : ∃ row column, row ≤ d.lineCount - 1 ∧
        s'.buffer = some { Buffer.ofText d.text with row, column })
      (view : s'.view = .editor)
  | stays (same : s.Attends s') (view : s'.view = s.view) (previous : s'.previous = s.previous)
  /-- The command line is called. -/
  | asks (same : s.Attends s') (from_ : s.view ≠ .command) (view : s'.view = .command)
      (previous : s'.previous = s.view)
  /-- The command line is left. -/
  | returns (same : s.Attends s') (from_ : s.view = .command) (view : s'.view = s.previous)

/-! ### What the operations do to views and buffer -/

private theorem Attends.refl (s : Session) : s.Attends s := ⟨rfl, rfl⟩

theorem exitEditor_buffer (s : Session) (discard : Bool) : (s.exitEditor discard).buffer = none := rfl

theorem closeActive_buffer (s : Session) : s.closeActive.buffer = s.buffer := by
  unfold closeActive
  rw [sync_buffer]
  rfl

private theorem closeActive_view (s : Session) : s.closeActive.view = s.view := by
  unfold closeActive
  rw [sync_view]
  rfl

theorem quitOrBack_buffer (s : Session) : s.quitOrBack.2.buffer = s.buffer := by
  unfold quitOrBack
  split <;> rfl

theorem openPath_buffer (s : Session) (path : String) : (s.openPath path).buffer = s.buffer := by
  rcases s.openPath_cases path with ⟨_, he⟩ | ⟨index, isMulti, _, he⟩ <;> rw [he, sync_buffer]
  rfl

/-- A command about the active document is nothing to views and buffer. -/
private theorem Placed.dispatch_turn (h : s.Placed) {command : Editor.Command}
    (hc : command.isHere = true) :
    s.Turn (s.dispatch command) := by
  obtain ⟨hd, ha⟩ := h.dispatch_workspace hc
  refine .stays ⟨?_, ?_⟩ ?_ ?_
  · rw [Session.dispatch, sync_buffer]
    rfl
  · rw [Workspace.activeDocument, hd, ha, Workspace.activeDocument]
  · rw [Session.dispatch, sync_view]
    rfl
  · rw [Session.dispatch, sync_previous]
    rfl

private theorem Placed.revealSelected_turn (h : s.Placed) : s.Turn s.revealSelected := by
  unfold Session.revealSelected
  split
  · exact .stays (.refl s) rfl rfl
  · exact h.dispatch_turn rfl

private theorem Placed.activeDocument_revealSelected (h : s.Placed) :
    s.revealSelected.workspace.activeDocument = s.workspace.activeDocument := by
  unfold Session.revealSelected
  split
  · rfl
  · obtain ⟨hd, ha⟩ :=
      h.dispatch_workspace (show Editor.Command.isHere (.reveal _ none) = true from rfl)
    rw [Workspace.activeDocument, hd, ha, Workspace.activeDocument]

private theorem Placed.activeDocument_commitEdit (h : s.Placed) (text : String) :
    (s.commitEdit text).workspace.activeDocument =
      s.workspace.activeDocument.map ({ · with text }) := by
  rw [Session.commitEdit, sync_activeDocument (Workspace.commit_informed h.settled.pending text),
    Workspace.activeDocument_commit]

/-- Saving goes on with the same document. -/
private theorem Placed.save_turn (h : s.Placed) (hs : s.save = .ok s') : s.Turn s' := by
  rcases save_cases hs with ⟨_, rfl⟩ | ⟨uri, text, disk, _, _, rfl⟩
  · exact .stays (.refl s') rfl rfl
  · have hd : Placed { s with disk } := h.untouched ⟨rfl, rfl, rfl, rfl, rfl⟩ h.row h.file
    refine .stays ⟨?_, ?_⟩ ?_ ?_
    · exact congrArg Option.isSome (commitEdit_buffer { s with disk } text)
    · have ha := hd.activeDocument_commitEdit text
      change Option.map _ ({ s with disk }.commitEdit text).workspace.activeDocument = _
      rw [ha, Option.map_map]
      rfl
    · exact sync_view _
    · exact sync_previous _

/-- What a command line does in the view that it was called from, it does from the command line. -/
private theorem Turn.atCommand (h : s.atCommand.Turn s') (hv : s.view = .command)
    (hp : s.previous ≠ .command) : s.Turn s' := by
  cases h with
  | away hb hv' => exact .away hb hv'
  | loads d hn hd hd' hb hv' => exact .loads d hn hd hd' hb hv'
  | stays hs hv' hp' => exact .returns ⟨hs.buffer, hs.name⟩ hv hv'
  | asks hs _ hv' hp' => exact .stays ⟨hs.buffer, hs.name⟩ (hv'.trans hv.symm) hp'
  | returns _ hv' _ => exact absurd hv' hp

/-- Views and buffer go together: a buffer is open in the editor, and in a command line that was
called from there. A command line is not called from a command line. -/
structure Paired (s : Session) : Prop where
  buffer : s.buffer.isSome = true ↔ s.view = .editor ∨ s.view = .command ∧ s.previous = .editor
  command : s.view = .command → s.previous ≠ .command

theorem Paired.buffer_eq_none (h : s.Paired) (hv : s.view = .files ∨ s.view = .outline) :
    s.buffer = none := by
  have hb := h.buffer
  rcases hv with hv | hv <;> simpa [hv] using hb

/-- No turn breaks the pairing. -/
private theorem Paired.turn (h : s.Paired) (ht : s.Turn s') : s'.Paired := by
  cases ht with
  | away hb hv =>
    refine ⟨?_, ?_⟩
    · rcases hv with hv | hv <;> simp [hb, hv]
    · rcases hv with hv | hv <;> simp [hv]
  | loads d _ _ _ hb hv =>
    obtain ⟨row, column, _, hb⟩ := hb
    exact ⟨by simp [hb, hv], by simp [hv]⟩
  | stays hs hv hp =>
    refine ⟨?_, ?_⟩
    · rw [hs.buffer, hv, hp]
      exact h.buffer
    · rw [hv, hp]
      exact h.command
  | asks hs hc hv hp =>
    refine ⟨?_, fun _ => hp ▸ hc⟩
    rw [hs.buffer, h.buffer, hv, hp]
    simp [hc]
  | returns hs hc hv =>
    refine ⟨?_, fun hv' => absurd (hv.symm.trans hv') (h.command hc)⟩
    rw [hs.buffer, h.buffer, hv, hc]
    simp [h.command hc]

/-! ### What keys do -/

/-- A key for the list of files opens the selected one, calls the command line or moves the
selection within the list. -/
theorem fileKey_cases (s : Session) (key : Key) :
    (s.fileKey key).2 = s.openSelected ∨ (s.fileKey key).2 = s.beginCommand ∨
      ∃ file, (file ≤ s.file ∨ file < s.workspace.documents.length) ∧
        (s.fileKey key).2 = { s with file } := by
  unfold fileKey
  split
  case h_6 => exact .inl rfl
  case h_7 => exact .inr (.inl rfl)
  case h_2 | h_3 => exact .inr (.inr ⟨s.file - 1, .inl (Nat.sub_le ..), rfl⟩)
  case h_4 | h_5 =>
    split
    · rename_i hl
      exact .inr (.inr ⟨s.file + 1, .inr hl, rfl⟩)
    · exact .inr (.inr ⟨s.file, .inl (Nat.le_refl _), rfl⟩)
  all_goals exact .inr (.inr ⟨s.file, .inl (Nat.le_refl _), rfl⟩)

/-- Everything that a key can do in the outline. -/
inductive OutlineStep (s : Session) : Session → Prop where
  | quitOrBack : s.OutlineStep s.quitOrBack.2
  | moveUp : s.OutlineStep s.moveUp
  | moveDown : s.OutlineStep s.moveDown
  | expandOrDescend : s.OutlineStep s.expandOrDescend
  | collapseOrAscend : s.OutlineStep s.collapseOrAscend
  | reveal : s.OutlineStep s.revealSelected
  | edit : s.OutlineStep s.revealSelected.enterEditor
  | showFiles : s.OutlineStep { s with file := s.workspace.active.getD 0, view := .files }
  | beginCommand : s.OutlineStep s.beginCommand
  | nothing : s.OutlineStep s

theorem outlineKey_step (s : Session) (key : Key) : s.OutlineStep (s.outlineKey key).2 := by
  unfold outlineKey
  split
  case h_1 => exact .quitOrBack
  case h_2 | h_3 => exact .moveUp
  case h_4 | h_5 => exact .moveDown
  case h_6 | h_7 => exact .expandOrDescend
  case h_8 | h_9 => exact .collapseOrAscend
  case h_10 => exact .reveal
  case h_11 => exact .edit
  case h_12 => exact .showFiles
  case h_13 => exact .beginCommand
  case h_14 => exact .nothing

/-- A key for the command line runs it, gives it up or edits it. -/
theorem commandKey_cases (s : Session) (key : Key) :
    key = .enter ∧ (s.commandKey key).2 = (s.atCommand.obey s.command).2 ∨
      (s.commandKey key).2 = s.cancelCommand ∨
        ∃ command, (s.commandKey key).2 = { s with command } := by
  cases key with
  | enter => exact .inl ⟨rfl, rfl⟩
  | escape => exact .inr (.inl rfl)
  | char c => exact .inr (.inr ⟨s.command.push c, rfl⟩)
  | backspace => exact .inr (.inr ⟨.ofList s.command.toList.dropLast, rfl⟩)
  | _ => exact .inr (.inr ⟨s.command, rfl⟩)

/-- A key for the editor calls the command line, leaves the editor or is for the buffer. -/
theorem editorKeyWith_cases (s : Session) (edit : Buffer → Buffer) (key : Key) :
    s.buffer = none ∧ (s.editorKeyWith edit key).2 = s ∨ ∃ b, s.buffer = some b ∧
      ((s.editorKeyWith edit key).2 = s.beginCommand ∨
        (s.editorKeyWith edit key).2 = s.exitEditor false ∨
          (s.editorKeyWith edit key).2 = { s with buffer := some (edit b) }) := by
  unfold editorKeyWith
  cases hb : s.buffer with
  | none => exact .inl ⟨rfl, rfl⟩
  | some b =>
    refine .inr ⟨b, rfl, ?_⟩
    simp only
    split
    · exact .inl rfl
    · exact .inr (.inl rfl)
    · exact .inr (.inr rfl)

/-- Where a buffer is open, a key is for the editor or for a command line called from there. -/
theorem Paired.pressWith_eq {b : Buffer} (h : s.Paired) (hb : s.buffer = some b)
    (edit : Buffer → Buffer) (key : Key) :
    s.view = .editor ∧ s.pressWith edit key = s.editorKeyWith edit key ∨
      s.view = .command ∧ s.pressWith edit key = s.commandKey key := by
  unfold pressWith
  cases hv : s.view with
  | files => simp [h.buffer_eq_none (.inl hv)] at hb
  | outline => simp [h.buffer_eq_none (.inr hv)] at hb
  | editor => exact .inl ⟨rfl, rfl⟩
  | command => exact .inr ⟨rfl, rfl⟩

private theorem fileKey_turn (hb : s.buffer = none) (hv : s.view = .files) (key : Key) :
    s.Turn (s.fileKey key).2 := by
  rcases s.fileKey_cases key with he | he | ⟨file, _, he⟩ <;> rw [he]
  · refine .away ?_ (.inr rfl)
    change (Session.sync _).buffer = none
    rw [sync_buffer]
    exact hb
  · exact .asks ⟨rfl, rfl⟩ (by simp [hv]) rfl rfl
  · exact .stays ⟨rfl, rfl⟩ rfl rfl

private theorem Browses.turn (h : s.Browses s') : s.Turn s' := by
  obtain ⟨row, rows, expanded, rfl⟩ := h
  exact .stays ⟨rfl, rfl⟩ rfl rfl

/-- From the outline the session goes back to the files, or is left where it is. -/
private theorem quitOrBack_turn (hb : s.buffer = none) : s.Turn s.quitOrBack.2 := by
  unfold quitOrBack
  split
  · exact .away hb (.inl rfl)
  · exact .stays (.refl s) rfl rfl

/-- The editor opens with the rows of the active document, if there is one. -/
private theorem Placed.edit_turn (h : s.Placed) (hb : s.buffer = none) :
    s.Turn s.revealSelected.enterEditor := by
  have ha := h.activeDocument_revealSelected
  unfold Session.enterEditor
  split
  · exact h.revealSelected_turn
  · rename_i d hd
    exact .loads d hb (ha.symm.trans hd) hd ⟨_, _, Nat.min_le_right .., rfl⟩ rfl

private theorem Placed.outlineKey_turn (h : s.Placed) (hb : s.buffer = none)
    (hv : s.view = .outline)
    (key : Key) : s.Turn (s.outlineKey key).2 := by
  have ho := s.outlineKey_step key
  generalize (s.outlineKey key).2 = s' at ho
  cases ho with
  | quitOrBack => exact quitOrBack_turn hb
  | moveDown => exact s.moveDown_browses.turn
  | expandOrDescend => exact s.expandOrDescend_browses.turn
  | collapseOrAscend => exact s.collapseOrAscend_browses.turn
  | reveal => exact h.revealSelected_turn
  | edit => exact h.edit_turn hb
  | showFiles => exact .away hb (.inl rfl)
  | beginCommand => exact .asks ⟨rfl, rfl⟩ (by simp [hv]) rfl rfl
  | moveUp | nothing => exact .stays ⟨rfl, rfl⟩ rfl rfl

private theorem editorKeyWith_turn (hv : s.view = .editor) (edit : Buffer → Buffer) (key : Key) :
    s.Turn (s.editorKeyWith edit key).2 := by
  rcases s.editorKeyWith_cases edit key with ⟨_, he⟩ | ⟨b, hb, he | he | he⟩ <;> rw [he]
  · exact .stays (.refl s) rfl rfl
  · exact .asks ⟨rfl, rfl⟩ (by simp [hv]) rfl rfl
  · exact .away (exitEditor_buffer ..) (.inr rfl)
  · exact .stays ⟨by simp [hb], rfl⟩ rfl rfl

/-- A command line that was called from a list or from the editor. -/
private theorem Placed.obey_turn (h : s.Placed) (hb : s.buffer.isSome = true ↔ s.view = .editor)
    (hc : s.view ≠ .command) (line : String) : s.Turn (s.obey line).2 := by
  have ho := s.obey_obeys line
  generalize (s.obey line).2 = s' at ho
  cases ho with
  | write s' _ hs _ => exact h.save_turn hs
  | writeAndLeave s' _ _ _ => exact .away (exitEditor_buffer ..) (.inr rfl)
  | writeFails e _ _ _ => exact .stays ⟨rfl, rfl⟩ rfl rfl
  | leave discard _ _ => exact .away (exitEditor_buffer ..) (.inr rfl)
  | back _ hn => exact quitOrBack_turn (by simpa using hn)
  | outline _ => exact h.dispatch_turn rfl
  | close _ =>
    cases hs : s.buffer.isSome with
    | true => exact .away (closeActive_buffer _) (.inr (closeActive_view _))
    | false =>
      have hn : s.view ≠ .editor := fun he => by simp [hb.mpr he] at hs
      have hv : s.view = .files ∨ s.view = .outline := by
        cases hw : s.view <;> simp_all
      exact .away ((closeActive_buffer s).trans (by simpa using hs))
        (by simpa only [Bool.false_eq_true, if_false, closeActive_view] using hv)
  | openPath path _ _ => exact .away (openPath_buffer _ path) (.inr rfl)
  | nothing message _ _ => exact .stays ⟨rfl, rfl⟩ rfl rfl

private theorem Placed.commandKey_turn (h : s.Placed) (hs : s.Paired) (hc : s.view = .command)
    (key : Key) :
    s.Turn (s.commandKey key).2 := by
  rcases s.commandKey_cases key with ⟨_, he⟩ | he | ⟨command, he⟩ <;> rw [he]
  · have hp : s.atCommand.Placed :=
      h.aside s.disk _ _ s.buffer _ s.workspace.message s.workspace.cursor
    have hb : s.atCommand.buffer.isSome = true ↔ s.atCommand.view = .editor := by
      have hi : s.buffer.isSome = true ↔ s.previous = .editor := by simpa [hc] using hs.buffer
      exact hi
    exact (hp.obey_turn hb (hs.command hc) s.command).atCommand hc (hs.command hc)
  · exact .returns ⟨rfl, rfl⟩ hc rfl
  · exact .stays ⟨rfl, rfl⟩ rfl rfl

/-- What any key can do to views and buffer, in any view. -/
theorem Placed.pressWith_turn (h : s.Placed) (hs : s.Paired) (edit : Buffer → Buffer) (key : Key) :
    s.Turn (s.pressWith edit key).2 := by
  unfold Session.pressWith
  cases hv : s.view with
  | files => exact fileKey_turn (hs.buffer_eq_none (.inl hv)) hv key
  | outline => exact h.outlineKey_turn (hs.buffer_eq_none (.inr hv)) hv key
  | editor => exact editorKeyWith_turn hv edit key
  | command => exact h.commandKey_turn hs hv key

namespace Placed

private theorem fileKey (h : s.Placed) (key : Key) : (s.fileKey key).2.Placed := by
  rcases s.fileKey_cases key with he | he | ⟨file, hl, he⟩ <;> rw [he]
  · exact h.openSelected
  · exact h.aside s.disk _ _ s.buffer _ none s.workspace.cursor
  · have hfile : file ≤ s.workspace.documents.length - 1 := by
      have hs := h.file
      omega
    exact h.untouched ⟨rfl, rfl, rfl, rfl, rfl⟩ h.row hfile

private theorem outlineKey (h : s.Placed) (key : Key) : (s.outlineKey key).2.Placed := by
  have ho := s.outlineKey_step key
  generalize (s.outlineKey key).2 = s' at ho
  cases ho with
  | quitOrBack => exact h.quitOrBack
  | moveUp => exact h.moveUp
  | moveDown => exact h.moveDown
  | expandOrDescend => exact h.expandOrDescend
  | collapseOrAscend => exact h.collapseOrAscend
  | reveal => exact h.revealSelected
  | edit => exact h.revealSelected.enterEditor
  | showFiles => exact h.untouched ⟨rfl, rfl, rfl, rfl, rfl⟩ h.row h.sound.active_le
  | beginCommand => exact h.aside s.disk _ _ s.buffer _ none s.workspace.cursor
  | nothing => exact h

private theorem editorKeyWith (h : s.Placed) (edit : Buffer → Buffer) (key : Key) :
    (s.editorKeyWith edit key).2.Placed := by
  rcases s.editorKeyWith_cases edit key with ⟨_, he⟩ | ⟨b, _, he | he | he⟩ <;> rw [he]
  · exact h
  · exact h.aside s.disk _ _ s.buffer _ none s.workspace.cursor
  · exact h.exitEditor false
  · exact h.aside s.disk _ _ _ _ s.workspace.message s.workspace.cursor

private theorem commandKey (h : s.Placed) (key : Key) : (s.commandKey key).2.Placed := by
  have hc (view : View) (command : String) : ({ s with view, command } : Session).Placed :=
    h.aside s.disk _ _ s.buffer _ s.workspace.message s.workspace.cursor
  rcases s.commandKey_cases key with ⟨_, he⟩ | he | ⟨command, he⟩ <;> rw [he]
  · exact (hc s.previous "").obey s.command
  · exact hc s.previous ""
  · exact hc s.view command

private theorem pressWith (h : s.Placed) (edit : Buffer → Buffer) (key : Key) :
    (s.pressWith edit key).2.Placed := by
  unfold Session.pressWith
  cases s.view with
  | files => exact h.fileKey key
  | outline => exact h.outlineKey key
  | editor => exact h.editorKeyWith edit key
  | command => exact h.commandKey key

end Placed

/-! ### Sequences of keys -/

namespace Sitting
variable {t : Sitting}

/-- The session is placed and paired, and the active document is the one that the buffer was loaded
from. -/
structure Attended (t : Sitting) : Prop where
  placed : t.session.Placed
  paired : t.session.Paired
  loaded : ∀ b, t.session.buffer = some b →
    ∃ d, t.session.workspace.activeDocument = some d ∧ t.loaded = some d.uri

/-- The name goes on along with the buffer. -/
private theorem Attended.loaded_next (h : t.Attended) (hs : t.session.Attends s') (b : Buffer)
    (hb : s'.buffer = some b) :
    ∃ d, s'.workspace.activeDocument = some d ∧ (t.next s').loaded = some d.uri := by
  have hopen : t.session.buffer.isSome = true := by rw [← hs.buffer, hb]; rfl
  obtain ⟨c, hc⟩ := Option.isSome_iff_exists.mp hopen
  obtain ⟨d, hd, hl⟩ := h.loaded c hc
  have hn := hs.name
  rw [hd, Option.map_some] at hn
  obtain ⟨d', hd', hu⟩ := Option.map_eq_some_iff.mp hn
  exact ⟨d', hd', by simp [next, hb, hc, hl, hu]⟩

private theorem Attended.next (h : t.Attended) (hp : s'.Placed) (ht : t.session.Turn s') :
    (t.next s').Attended := by
  refine ⟨hp, h.paired.turn ht, fun b hs => ?_⟩
  cases ht with
  | away hb _ => cases hb.symm.trans hs
  | loads d hn _ hd hb _ =>
    obtain ⟨row, column, _, hb⟩ := hb
    exact ⟨d, hd, by simp [Sitting.next, hb, hn, hd]⟩
  | stays hsame | asks hsame | returns hsame => exact h.loaded_next hsame b hs

/-- Only the key that opens the editor opens a buffer: the active document's, with its rows. -/
theorem next_opens (ht : t.session.Turn s') (hn : t.session.buffer = none) {b : Buffer}
    (hb : s'.buffer = some b) :
    ∃ d, t.session.workspace.activeDocument = some d ∧ (t.next s').loaded = some d.uri ∧
      b.rows = (Buffer.ofText d.text).rows := by
  have hsame (hs : t.session.Attends s') : False := by simpa [hn, hb] using hs.buffer
  cases ht with
  | away hc _ => cases hc.symm.trans hb
  | loads d _ hd hd' hl _ =>
    obtain ⟨row, column, _, hl⟩ := hl
    obtain rfl := Option.some.inj (hb.symm.trans hl)
    exact ⟨d, hd, by simp [Sitting.next, hb, hn, hd'], rfl⟩
  | stays hs | asks hs | returns hs => exact absurd hs hsame

theorem Attended.replaceDisk (h : t.Attended) (disk : Files.Disk) :
    ({ t with session := { t.session with disk } } : Sitting).Attended :=
  ⟨h.placed.untouched ⟨rfl, rfl, rfl, rfl, rfl⟩ h.placed.row h.placed.file,
    ⟨h.paired.buffer, h.paired.command⟩, h.loaded⟩

/-- The step lemma: a key keeps everything attended, whatever the editor makes of it. -/
theorem Attended.press (h : t.Attended) (p : Press) : (t.press p).Attended := by
  have hd := h.replaceDisk p.disk
  exact hd.next (hd.placed.pressWith p.edit p.key) (hd.placed.pressWith_turn hd.paired p.edit p.key)

/-- The run lemma. -/
theorem Attended.pressAll (h : t.Attended) (ps : List Press) : (t.pressAll ps).Attended := by
  induction ps generalizing t with
  | nil => exact h
  | cons p ps ih => exact ih (h.press p)

theorem begun_buffer (disk : Files.Disk) (tracker : Tracker) (documents : List Document)
    (extensions : List String) :
    (begun disk tracker documents extensions).session.buffer = none := by
  rw [begun, started, start, sync_buffer]
  rfl

theorem begun_attended {documents : List Document} (h : (documents.map Document.uri).Nodup)
    (disk : Files.Disk) (tracker : Tracker) (extensions : List String) :
    (begun disk tracker documents extensions).Attended := by
  have hb := begun_buffer disk tracker documents extensions
  have hv : (started disk tracker documents extensions).view = .files ∨
      (started disk tracker documents extensions).view = .outline := by
    rw [started, start, sync_view]
    simp only [track, new]
    split <;> simp
  refine ⟨started_placed h disk tracker extensions, ⟨?_, ?_⟩, ?_⟩
  · rw [hb]
    rcases hv with hv | hv <;> simp [begun, hv]
  · rcases hv with hv | hv <;> simp [begun, hv]
  · intro b hs
    cases hb.symm.trans hs

/-- An index that is at most the last one points at something, if there is anything. -/
private theorem lt_length_or_of_le {α : Type} {xs : List α} {i : Nat} (h : i ≤ xs.length - 1) :
    i < xs.length ∨ xs = [] ∧ i = 0 := by
  cases xs with
  | nil => exact .inr ⟨rfl, by simpa using h⟩
  | cons x xs =>
    rw [List.length_cons] at h ⊢
    omega

/-- From the first outline on, after any keys and whatever the editor makes of those it gets: a
buffer is open exactly in the editor and in a command line called from there, a command line is
never called from a command line, the active document is the one that an open buffer was loaded
from, some document has the focus exactly if one is open, and both selections point into their
lists. A buffer opens with the rows of the document that is active then. -/
theorem views_and_selections_in_order (disk : Files.Disk) (tracker : Tracker)
    (documents : List Document) (extensions : List String)
    (h : (documents.map Document.uri).Nodup) (ps : List Press) :
    ∀ t, (begun disk tracker documents extensions).pressAll ps = t →
      (t.session.buffer.isSome = true ↔
        t.session.view = .editor ∨ t.session.view = .command ∧ t.session.previous = .editor) ∧
      ¬ (t.session.view = .command ∧ t.session.previous = .command) ∧
      (∀ b, t.session.buffer = some b →
        ∃ d, t.session.workspace.activeDocument = some d ∧ t.loaded = some d.uri) ∧
      (∀ p b, t.session.buffer = none → (t.press p).session.buffer = some b →
        ∃ d, t.session.workspace.activeDocument = some d ∧ (t.press p).loaded = some d.uri ∧
          b.rows = (Buffer.ofText d.text).rows) ∧
      (t.session.workspace.active = none ↔ t.session.workspace.documents = []) ∧
      (∀ i, t.session.workspace.active = some i → i < t.session.workspace.documents.length) ∧
      (t.session.row < t.session.rows.length ∨ t.session.rows = [] ∧ t.session.row = 0) ∧
      (t.session.file < t.session.workspace.documents.length ∨
        t.session.workspace.documents = [] ∧ t.session.file = 0) := by
  rintro t rfl
  have ha := (begun_attended h disk tracker extensions).pressAll ps
  refine ⟨ha.paired.buffer, fun hc => ha.paired.command hc.1 hc.2, ha.loaded, ?_,
    ha.placed.focused, ha.placed.sound.inRange, lt_length_or_of_le ha.placed.row,
    lt_length_or_of_le ha.placed.file⟩
  intro p b hn hb
  have hd := ha.replaceDisk p.disk
  exact next_opens (hd.placed.pressWith_turn hd.paired p.edit p.key) hn hb

/-- The second of two files is opened from the list and edited, and a command line is called from
the editor. -/
theorem views_and_selections_in_order_while_editing :
    ([⟨"a.yaml", "yaml", "k: 1\n"⟩, ⟨"b.yaml", "yaml", "l:\n- 2\n"⟩].map Document.uri).Nodup ∧
      ∃ t, (begun (.ofFolder [] []) {} [⟨"a.yaml", "yaml", "k: 1\n"⟩, ⟨"b.yaml", "yaml", "l:\n- 2\n"⟩] []).pressAll
          ([.down, .enter, .char 'e', .char 'i', .char 'x', .escape, .char ':', .char 'o'].map
            (Press.own (.ofFolder [] []))) = t ∧
        t.session.view = .command ∧ t.session.buffer.isSome = true ∧
          ∃ d, t.session.workspace.activeDocument = some d ∧ t.loaded = some d.uri := by
  have h : ([⟨"a.yaml", "yaml", "k: 1\n"⟩, ⟨"b.yaml", "yaml", "l:\n- 2\n"⟩].map Document.uri).Nodup := by
    decide
  refine ⟨h, _, rfl, by decide, by decide, ?_⟩
  obtain ⟨_, _, hl, _⟩ := views_and_selections_in_order (.ofFolder [] []) {} _ [] h _ _ rfl
  exact hl _ rfl

end Sitting

end YamlOutline.Session
