import YamlOutline.Proofs.Session.Run

/-! Between two operations of a session nothing is queued, some document has the focus if any is
open, and both selections point into their lists. Every operation keeps this, so indices never have
to be checked where they are used. -/

namespace YamlOutline

namespace Workspace
variable {w : Workspace}

/-- Some document has the focus exactly if one is open. -/
def Focused (w : Workspace) : Prop :=
  w.active = none ↔ w.documents = []

private theorem Focused.focus (h : w.Focused) (index : Nat) : (w.focus index).Focused := by
  rcases focus_cases w index with ⟨he, _⟩ | ⟨hi, _, he⟩ <;> rw [he]
  · exact h
  · have hd : w.documents ≠ [] := List.ne_nil_of_length_pos (by omega)
    exact iff_of_false (by simp) hd

/-- Opening leaves the focus on the document that was opened, and its index is the answer. -/
private theorem openFile_focused (h : w.Focused) (disk : Files.Disk) (path : String) :
    (w.openFile disk path).2.Focused ∧ ∀ i, (w.openFile disk path).1 = some i →
      i < (w.openFile disk path).2.documents.length := by
  rcases openFile_cases w disk path with ⟨i, hi, he⟩ | ⟨_, ⟨d, _, he⟩ | ⟨message, he⟩⟩ <;> rw [he]
  · refine ⟨h.focus i, fun j hj => ?_⟩
    obtain ⟨d, hd, _⟩ := getElem?_of_indexOf? hi
    obtain ⟨hl, _⟩ := List.getElem?_eq_some_iff.mp hd
    cases hj
    rcases focus_cases w i with ⟨hf, _⟩ | ⟨_, _, hf⟩ <;> simpa [hf] using hl
  · have hl : w.documents.length < (w.add d).documents.length := by simp [Workspace.add, push]
    have hne : (w.add d).documents ≠ [] := List.ne_nil_of_length_pos (by omega)
    rcases focus_cases (w.add d) w.documents.length with ⟨hf, ha⟩ | ⟨_, _, hf⟩
    · have ha' := ha.resolve_left (by omega)
      simp only [hf]
      exact ⟨iff_of_false (by simp [ha']) hne, fun j hj => Option.some.inj hj ▸ hl⟩
    · simp only [hf]
      exact ⟨iff_of_false (by simp) hne, fun j hj => Option.some.inj hj ▸ hl⟩
  · refine ⟨h, fun i hi => ?_⟩
    cases hi

private theorem Focused.closeActive (h : w.Focused) : w.closeActive.Focused := by
  rcases closeActive_cases w with ⟨_, he⟩ | ⟨i, d, _, _, he⟩ <;> rw [he]
  · exact h
  · unfold Focused
    cases w.documents.eraseIdx i <;> simp

private theorem length_commit (w : Workspace) (text : String) :
    (w.commit text).documents.length = w.documents.length := by
  have hl := congrArg List.length (w.map_uri_commit text)
  simp only [List.length_map] at hl
  exact hl

private theorem Focused.commit (h : w.Focused) (text : String) : (w.commit text).Focused := by
  have hl := w.length_commit text
  unfold Focused
  rw [commit_active, ← List.length_eq_zero_iff, hl, List.length_eq_zero_iff]
  exact h

/-- The focus, or the first place of an empty list, lies within the list. -/
theorem Sound.active_le (h : w.Sound) : w.active.getD 0 ≤ w.documents.length - 1 := by
  cases ha : w.active with
  | none => simp
  | some i =>
    have hi := h.inRange i ha
    simp only [Option.getD_some]
    omega

end Workspace

namespace Editor

/-- The command names no document, so that it is about the active one. -/
def Command.isHere : Command → Bool
  | .showOutline => true
  | .reveal _ uri => uri.isNone

end Editor

namespace Tracker
variable {w : Workspace}

/-- The active document has the focus already, so that only the cursor moves when a span of it is
revealed. -/
theorem revealSpan_active {d : Document} (hw : w.Sound) (hd : w.activeDocument = some d)
    (disk : Files.Disk) (span : Nat × Nat) :
    ∃ note, revealSpan (Workspace.editor disk) span none w =
      { w with cursor := d.lineStartAt span.1, notes := w.notes ++ [note] } := by
  obtain ⟨i, hi, hu⟩ := hw.indexOf?_active hd
  simp only [Workspace.indexOf?] at hu
  simp only [revealSpan, Workspace.editor, hd, Workspace.reveal, Workspace.indexOf?, hu,
    Workspace.focus, hi, beq_self_eq_true, Bool.or_true, if_true]
  exact ⟨_, rfl⟩

theorem revealSpan_inactive (hd : w.activeDocument = none) (disk : Files.Disk) (span : Nat × Nat) :
    ∃ note, revealSpan (Workspace.editor disk) span none w = { w with notes := w.notes ++ [note] } := by
  simp only [revealSpan, Workspace.editor, hd]
  exact ⟨_, rfl⟩

/-- A command about the active document leaves open documents, focus and queue as they are. -/
private theorem execute_here (t : Tracker) (hw : w.Sound) (disk : Files.Disk)
    {command : Editor.Command}
    (hc : command.isHere = true) :
    ∃ cursor message notes outlineChanged, (t.execute (Workspace.editor disk) command w).2 =
      { w with cursor, message, notes, outlineChanged } := by
  cases command with
  | showOutline =>
    obtain ⟨notes, message, he⟩ := t.follow_redrawn disk w
    exact ⟨w.cursor, message, notes, true, he⟩
  | reveal span uri =>
    obtain rfl : uri = none := by simpa [Editor.Command.isHere] using hc
    cases hd : w.activeDocument with
    | none =>
      obtain ⟨note, he⟩ := revealSpan_inactive hd disk span
      exact ⟨_, _, _, _, he⟩
    | some d =>
      obtain ⟨note, he⟩ := revealSpan_active hw hd disk span
      exact ⟨_, _, _, _, he⟩

end Tracker

namespace Session
variable {s s' : Session}

/-- Nothing is queued, the outline is in step, and focus and selections point at something. -/
structure Placed (s : Session) : Prop where
  inStep : s.tracker.InStep s.workspace
  settled : s.Settled
  focused : s.workspace.Focused
  row : s.row ≤ s.rows.length - 1
  file : s.file ≤ s.workspace.documents.length - 1

/-- Deliveries keep what is placed so, if they do not have to open a document for it. -/
private theorem placed_sync (hi : s.tracker.InStep s.workspace) (hq : s.workspace.Informed)
    (hf : s.workspace.Focused) (hr : s.row ≤ s.rows.length - 1)
    (hs : s.file ≤ s.workspace.documents.length - 1) : s.sync.Placed where
  inStep := sync_inStep hi
  settled := s.sync_settled
  focused := by
    rw [Workspace.Focused, sync_active, sync_documents hq]
    exact hf
  row := sync_row_le hr
  file := by
    rw [sync_file, sync_documents hq]
    exact hs

/-- What touches neither outline nor workspace keeps the session placed, given the selections. -/
theorem Placed.untouched (h : s.Placed) (hu : s.Untouched s') (hr : s'.row ≤ s'.rows.length - 1)
    (hf : s'.file ≤ s'.workspace.documents.length - 1) : s'.Placed where
  inStep := (hu.outcome h.inStep).inStep
  settled := hu.settled h.settled
  focused := by
    rw [Workspace.Focused, hu.active, hu.documents]
    exact h.focused
  row := hr
  file := hf

namespace Placed

/-- Other views, another buffer, another message and another disk make no difference. -/
theorem aside (h : s.Placed) (disk : Files.Disk) (view previous : View) (buffer : Option Buffer)
    (command : String) (message : Option String) (cursor : Position) :
    Placed { s with
      disk, view, previous, buffer, command
      workspace := { s.workspace with message, cursor } } :=
  h.untouched ⟨rfl, rfl, rfl, rfl, rfl⟩ h.row h.file

theorem moveUp (h : s.Placed) : s.moveUp.Placed :=
  h.untouched ⟨rfl, rfl, rfl, rfl, rfl⟩ (Nat.le_trans (Nat.sub_le ..) h.row) h.file

theorem moveDown (h : s.Placed) : s.moveDown.Placed := by
  unfold Session.moveDown
  split
  · rename_i hl
    exact h.untouched ⟨rfl, rfl, rfl, rfl, rfl⟩ (Nat.le_sub_one_of_lt hl) h.file
  · exact h

private theorem rebuildRows (h : s.Placed) (expanded : List (List Nat)) :
    ({ s with expanded } : Session).rebuildRows.Placed :=
  h.untouched ⟨rfl, rfl, rfl, rfl, rfl⟩ (Nat.min_le_right ..) h.file

theorem expandOrDescend (h : s.Placed) : s.expandOrDescend.Placed := by
  unfold Session.expandOrDescend
  split
  · exact h
  · split
    · exact h
    · split
      · exact h.moveDown
      · exact h.rebuildRows _

theorem collapseOrAscend (h : s.Placed) : s.collapseOrAscend.Placed := by
  unfold Session.collapseOrAscend
  split
  · exact h
  · split
    · exact h.rebuildRows _
    · split
      · rename_i index hi
        obtain ⟨hl, _, _⟩ := List.findIdx?_eq_some_iff_getElem.mp hi
        exact h.untouched ⟨rfl, rfl, rfl, rfl, rfl⟩ (Nat.le_sub_one_of_lt hl) h.file
      · exact h

private theorem informed (h : s.Placed) : s.workspace.Informed :=
  Workspace.informed_of_pending_nil h.settled.pending

theorem sound (h : s.Placed) : s.workspace.Sound := h.inStep.sound

/-- A command about the active document opens nothing and leaves the focus where it is. -/
theorem dispatch_workspace (h : s.Placed) {command : Editor.Command} (hc : command.isHere = true) :
    (s.dispatch command).workspace.documents = s.workspace.documents ∧
      (s.dispatch command).workspace.active = s.workspace.active := by
  obtain ⟨cursor, message, notes, changed, he⟩ := s.tracker.execute_here h.sound s.disk hc
  let tracked := s.track fun e t w => t.execute e command w
  have hw : tracked.workspace =
      { s.workspace with cursor, message, notes, outlineChanged := changed } := he
  have hq : tracked.workspace.Informed := by
    rw [hw]
    exact h.informed
  change tracked.sync.workspace.documents = _ ∧ tracked.sync.workspace.active = _
  rw [sync_documents hq, sync_active, hw]
  exact ⟨rfl, rfl⟩

private theorem dispatch (h : s.Placed) {command : Editor.Command} (hc : command.isHere = true) :
    (s.dispatch command).Placed := by
  obtain ⟨cursor, message, notes, changed, he⟩ := s.tracker.execute_here h.sound s.disk hc
  let tracked := s.track fun e t w => t.execute e command w
  have hw : tracked.workspace =
      { s.workspace with cursor, message, notes, outlineChanged := changed } := he
  refine placed_sync (s := tracked) (h.inStep.execute s.disk command) ?_ ?_ h.row ?_
  · rw [hw]
    exact h.informed
  · rw [hw]
    exact h.focused
  · rw [hw]
    exact h.file

theorem revealSelected (h : s.Placed) : s.revealSelected.Placed := by
  unfold Session.revealSelected
  split
  · exact h
  · exact h.dispatch rfl

theorem openSelected (h : s.Placed) : s.openSelected.Placed := by
  have hp : Placed ({ s.resetSelection with workspace := s.workspace.focus s.file } : Session).sync := by
    refine placed_sync (h.inStep.announced (s.workspace.focus_announced s.file) (h.sound.focus s.file))
      (Workspace.focus_informed h.settled.pending s.file) (h.focused.focus s.file) (Nat.zero_le _) ?_
    rcases s.workspace.focus_cases s.file with ⟨hf, _⟩ | ⟨_, _, hf⟩ <;> rw [hf] <;> exact h.file
  exact hp.untouched ⟨rfl, rfl, rfl, rfl, rfl⟩ hp.row hp.file

private theorem openPath (h : s.Placed) (path : String) : (s.openPath path).Placed := by
  have hi := h.inStep.announced (s.workspace.openFile_announced s.disk path)
    (h.sound.openFile s.disk path)
  have hq := Workspace.openFile_informed h.settled.pending s.disk path
  obtain ⟨hf, hl⟩ := Workspace.openFile_focused h.focused s.disk path
  rcases s.openPath_cases path with ⟨ho, he⟩ | ⟨index, isMulti, ho, he⟩ <;> rw [he]
  · refine placed_sync hi hq hf h.row ?_
    rcases s.workspace.openFile_cases s.disk path with
      ⟨i, _, hw⟩ | ⟨_, ⟨d, _, hw⟩ | ⟨message, hw⟩⟩ <;> rw [hw] at ho ⊢
    · cases ho
    · cases ho
    · exact h.file
  · exact placed_sync hi hq hf (Nat.zero_le _) (Nat.le_sub_one_of_lt (hl index ho))

private theorem closeActive (h : s.Placed) : s.closeActive.Placed :=
  placed_sync (h.inStep.announced s.workspace.closeActive_announced h.sound.closeActive)
    (Workspace.closeActive_informed h.settled.pending) h.focused.closeActive (Nat.zero_le _)
    h.sound.closeActive.active_le

private theorem commitEdit (h : s.Placed) (text : String) : (s.commitEdit text).Placed := by
  refine placed_sync (h.inStep.commit text)
    (Workspace.commit_informed h.settled.pending text) (h.focused.commit text) h.row ?_
  rw [Workspace.length_commit]
  exact h.file

theorem enterEditor (h : s.Placed) : s.enterEditor.Placed := by
  unfold Session.enterEditor
  split
  · exact h
  · exact h.aside s.disk _ s.previous _ s.command s.workspace.message s.workspace.cursor

theorem exitEditor (h : s.Placed) (discard : Bool) : (s.exitEditor discard).Placed := by
  rcases s.exitEditor_cases discard with ⟨_, he⟩ | ⟨_, uri, text, _, he⟩ <;> rw [he]
  · exact h.aside s.disk _ s.previous _ s.command s.workspace.message _
  · have hc := h.commitEdit text
    exact hc.untouched ⟨rfl, rfl, rfl, rfl, rfl⟩ hc.row hc.file

private theorem save (h : s.Placed) (hs : s.save = .ok s') : s'.Placed := by
  rcases save_cases hs with ⟨_, rfl⟩ | ⟨uri, text, disk, _, _, rfl⟩
  · exact h
  · have hd : Placed { s with disk } := h.untouched ⟨rfl, rfl, rfl, rfl, rfl⟩ h.row h.file
    have hc := hd.commitEdit text
    exact hc.untouched ⟨rfl, rfl, rfl, rfl, rfl⟩ hc.row hc.file

theorem quitOrBack (h : s.Placed) : s.quitOrBack.2.Placed := by
  unfold Session.quitOrBack
  split
  · exact h.untouched ⟨rfl, rfl, rfl, rfl, rfl⟩ h.row h.sound.active_le
  · exact h

theorem obey (h : s.Placed) (line : String) : (s.obey line).2.Placed := by
  have ho := s.obey_obeys line
  generalize (s.obey line).2 = s' at ho
  cases ho with
  | write s' _ hs => exact h.save hs
  | writeAndLeave s' _ hs => exact (h.save hs).exitEditor false
  | writeFails e _ _ => exact h.untouched ⟨rfl, rfl, rfl, rfl, rfl⟩ h.row h.file
  | leave discard _ => exact h.exitEditor discard
  | back _ => exact h.quitOrBack
  | outline _ => exact h.dispatch rfl
  | close _ =>
    split
    · exact (h.exitEditor true).closeActive
    · exact h.closeActive
  | openPath path _ _ =>
    have hp := (h.exitEditor false).openPath path
    exact hp.untouched ⟨rfl, rfl, rfl, rfl, rfl⟩ hp.row hp.file
  | nothing message _ => exact h.untouched ⟨rfl, rfl, rfl, rfl, rfl⟩ h.row h.file

end Placed

theorem started_placed {documents : List Document} (h : (documents.map Document.uri).Nodup)
    (disk : Files.Disk) (tracker : Tracker) (extensions : List String) :
    (started disk tracker documents extensions).Placed := by
  let opened : Workspace := .ofDocuments documents extensions
  let tracked := (new disk tracker opened).track fun e t w => t.activate e w
  obtain ⟨notes, message, hw⟩ := tracker.follow_redrawn disk
    { opened with notes := opened.notes ++ [⟨.info, .events, "yamltree activated"⟩] }
  have ht : tracked.workspace = _ := hw
  refine placed_sync (s := tracked) (activate_inStep (.ofDocuments h extensions) rfl) ?_ ?_
    (Nat.zero_le _) (Nat.zero_le _)
  · rw [ht]
    exact Workspace.informed_of_pending_nil rfl
  · rw [ht]
    cases documents <;> simp [Workspace.Focused, opened, Workspace.ofDocuments]

end Session

end YamlOutline
