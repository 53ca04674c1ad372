import YamlOutline.Proofs.Buffer.Cursor
import YamlOutline.Proofs.Document.Positions
import YamlOutline.Proofs.Screen.Preview
import YamlOutline.Proofs.Session.Keeping

/-! Whether the cursor is on a line of the active document. A move of the focus puts it on the first
line, an entry of the outline on the line where the entry starts, and leaving the editor on the row that
was edited. That row is a line of the document, unless the edits that made it were given up. -/

namespace YamlOutline

namespace Workspace
variable {w w' : Workspace}

/-- The cursor is on a line of the active document. -/
def OnLine (w : Workspace) : Prop :=
  ∀ d, w.activeDocument = some d → w.cursor.line < d.lineCount

private theorem onLine_of_cursor (h : w.cursor = {}) : w.OnLine := by
  intro d _
  rw [h]
  exact d.lineCount_pos

private theorem OnLine.congr (h : w.OnLine) (hd : w'.activeDocument = w.activeDocument)
    (hc : w'.cursor = w.cursor) : w'.OnLine := by
  intro d hw
  rw [hc]
  exact h d (hd ▸ hw)

private theorem OnLine.focus (h : w.OnLine) (index : Nat) : (w.focus index).OnLine := by
  rcases w.focus_cases index with ⟨he, _⟩ | ⟨_, _, he⟩ <;> rw [he]
  · exact h
  · exact onLine_of_cursor rfl

private theorem closeActive_onLine (w : Workspace) : w.closeActive.OnLine := by
  rcases w.closeActive_cases with ⟨hn, he⟩ | ⟨i, d, _, _, he⟩ <;> rw [he]
  · intro d hd
    cases hn.symm.trans hd
  · exact onLine_of_cursor rfl

private theorem OnLine.grows {ds : List Document} (h : w.OnLine) (hg : w.Grows ds w')
    (hw : w.Sound) :
    w'.OnLine :=
  h.congr (hg.activeDocument hw) hg.cursor

private theorem OnLine.openFile (h : w.OnLine) (hw : w.Sound) (disk : Files.Disk) (path : String) :
    (w.openFile disk path).2.OnLine := by
  rcases w.openFile_cases disk path with ⟨i, _, he⟩ | ⟨hn, ⟨d, rfl, he⟩ | ⟨message, he⟩⟩ <;> rw [he]
  · exact h.focus i
  · exact (h.grows (add_grows hn) hw).focus _
  · exact h

end Workspace

namespace Session
variable {s s' : Session} {b : Buffer} {key : Key}

/-- The cursor is on a row of the buffer while there is one, and else on a line of the active
document. -/
structure Pointing (s : Session) : Prop where
  row : ∀ b, s.buffer = some b → b.OnRow
  line : s.buffer = none → s.workspace.OnLine

/-- The key gives up an edit while the cursor is on a row that is no line of the document. -/
def Strays (s : Session) (key : Key) : Prop :=
  s.commandGiven? key = some "q!" ∧ ∃ b d, s.buffer = some b ∧
    s.workspace.activeDocument = some d ∧ d.lineCount ≤ b.row

/-- What the editor makes of the buffer has the cursor on a row, if it was on one. -/
def Press.KeepsRow (p : Press) : Prop :=
  ∀ b : Buffer, b.OnRow → (p.edit b).OnRow

private theorem Press.own_keepsRow (disk : Files.Disk) (key : Key) :
    (Press.own disk key).KeepsRow :=
  fun _ h => h.press key

/-! ### The operations -/

private theorem onLine_sync (h : s.workspace.OnLine) (hw : s.workspace.Sound) :
    s.sync.workspace.OnLine := by
  obtain ⟨ds, hg⟩ := s.drain_delivers.grows
  have hd : s.drain.workspace.OnLine := h.grows hg hw
  rw [sync_workspace]
  exact hd

private theorem Placed.openSelected_onLine (h : s.Placed) (hl : s.workspace.OnLine) :
    s.openSelected.workspace.OnLine :=
  onLine_sync (hl.focus s.file) (h.sound.focus s.file)

private theorem Placed.openPath_onLine (h : s.Placed) (hl : s.workspace.OnLine) (path : String) :
    (s.openPath path).workspace.OnLine := by
  have ho := hl.openFile h.sound s.disk path
  have hw := h.sound.openFile s.disk path
  rcases s.openPath_cases path with ⟨_, he⟩ | ⟨index, isMulti, _, he⟩ <;> rw [he]
  · exact onLine_sync ho hw
  · exact onLine_sync ho hw

private theorem Placed.closeActive_onLine (h : s.Placed) : s.closeActive.workspace.OnLine :=
  onLine_sync s.workspace.closeActive_onLine h.sound.closeActive

/-- A command about the active document leaves the cursor or puts it on the line that a span starts
on. -/
private theorem Placed.dispatch_onLine (h : s.Placed) (hl : s.workspace.OnLine)
    {command : Editor.Command}
    (hc : command.isHere = true) : (s.dispatch command).workspace.OnLine := by
  let tracked := s.track fun e t w => t.execute e command w
  have hw : tracked.workspace.Sound := (h.inStep.execute s.disk command).sound
  refine onLine_sync (s := tracked) ?_ hw
  cases command with
  | showOutline => exact hl.grows (s.tracker.follow_redrawn s.disk s.workspace).grows h.sound
  | reveal span uri =>
    obtain rfl : uri = none := by simpa [Editor.Command.isHere] using hc
    change (Tracker.revealSpan (Workspace.editor s.disk) span none s.workspace).OnLine
    cases hd : s.workspace.activeDocument with
    | none =>
      obtain ⟨note, he⟩ := Tracker.revealSpan_inactive hd s.disk span
      rw [he]
      exact hl
    | some d =>
      obtain ⟨note, he⟩ := Tracker.revealSpan_active h.sound hd s.disk span
      rw [he]
      intro d' hd'
      obtain rfl := Option.some.inj (hd.symm.trans hd')
      exact d.lineStartAt_lt span.1

private theorem Placed.revealSelected_onLine (h : s.Placed) (hl : s.workspace.OnLine) :
    s.revealSelected.workspace.OnLine := by
  unfold Session.revealSelected
  split
  · exact hl
  · exact h.dispatch_onLine hl rfl

private theorem exitEditor_cursor (s : Session) (discard : Bool) :
    (s.exitEditor discard).workspace.cursor = s.leavingCursor := by
  rcases s.exitEditor_cases discard with ⟨_, he⟩ | ⟨_, uri, text, _, he⟩ <;> rw [he]

private theorem leavingCursor_of_buffer (hb : s.buffer = some b) :
    s.leavingCursor = ⟨b.row, b.column⟩ := by
  simp only [leavingCursor, hb]

/-- Where the edits are kept, the row that the cursor was on is a line of the document. -/
private theorem Pointing.exitEditor (h : s.Pointing) : (s.exitEditor false).workspace.OnLine := by
  rcases s.exitEditor_cases false with ⟨hp, he⟩ | ⟨_, uri, text, hp, _⟩
  · rw [he]
    cases hb : s.buffer with
    | none =>
      have hc : s.leavingCursor = s.workspace.cursor := by simp only [leavingCursor, hb]
      exact (h.line hb).congr rfl hc
    | some b =>
      -- An edit is pending unless no document is active.
      intro d hd
      have hp' := pendingEdit?_of_buffer hb hd
      simp [hp'] at hp
  · obtain ⟨b, d, hb, hd, _, ht⟩ := pendingEdit?_eq_some.mp hp
    intro d' hd'
    obtain rfl := Option.some.inj ((exitEditor_activeDocument hd hp).symm.trans hd')
    rw [exitEditor_cursor, leavingCursor_of_buffer hb]
    exact (h.row b hb).lt_lineCount ht.symm

/-- The cursor goes to the row of the buffer, also where the document does not get the rows. -/
private theorem exitEditor_true_onLine_iff (hb : s.buffer = some b) :
    (s.exitEditor true).workspace.OnLine ↔
      ¬ ∃ d, s.workspace.activeDocument = some d ∧ d.lineCount ≤ b.row := by
  have he : s.exitEditor true =
      { s with workspace.cursor := ⟨b.row, b.column⟩, buffer := none, view := .outline } := by
    rcases s.exitEditor_cases true with ⟨_, he⟩ | ⟨hf, _⟩
    · rw [he, leavingCursor_of_buffer hb]
    · cases hf
  rw [he]
  simp only [not_exists, not_and, Nat.not_le]
  exact Iff.rfl

private theorem quitOrBack_workspace (s : Session) : s.quitOrBack.2.workspace = s.workspace := by
  unfold quitOrBack
  split <;> rfl

/-- With the first outline the cursor is on the first line. -/
private theorem started_onLine {documents : List Document} (h : (documents.map Document.uri).Nodup)
    (disk : Files.Disk) (tracker : Tracker) (extensions : List String) :
    (started disk tracker documents extensions).workspace.OnLine := by
  let opened : Workspace := .ofDocuments documents extensions
  let tracked := (new disk tracker opened).track fun e t w => t.activate e w
  have hc : tracked.workspace.cursor = opened.cursor := (tracker.follow_redrawn disk
    { opened with notes := opened.notes ++ [⟨.info, .events, "yamltree activated"⟩] }).grows.cursor
  exact onLine_sync (s := tracked) (Workspace.onLine_of_cursor hc)
    (activate_inStep (.ofDocuments h extensions) rfl).sound

/-! ### Keys -/

/-- After a command line that leaves no buffer open the cursor is on a line, unless the edits were given
up by name. -/
private theorem Placed.obey_onLine (h : s.Placed) (hp : s.Pointing) (line : String)
    (hc : (s.obey line).2.buffer = none) :
    (s.obey line).2.workspace.OnLine ∨
      (splitCommand line).1 = "q!" ∧ s.buffer.isSome = true ∧ (s.obey line).2 = s.exitEditor true := by
  have ho := s.obey_obeys line
  generalize (s.obey line).2 = s' at ho hc
  cases ho with
  | write s' _ hs hb => simp [(save_buffer hs).symm.trans hc] at hb
  | writeAndLeave s' _ hs hb =>
    refine .inl (Pointing.exitEditor ⟨fun b hb' => hp.row b ((save_buffer hs).symm.trans hb'), fun hn => ?_⟩)
    simp [(save_buffer hs).symm.trans hn] at hb
  | writeFails e _ _ hb => simp [show s.buffer = none from hc] at hb
  | leave discard hn hb =>
    cases discard with
    | true => exact .inr ⟨hn, hb, rfl⟩
    | false => exact .inl hp.exitEditor
  | back _ hb =>
    rw [quitOrBack_workspace]
    exact .inl (hp.line (by simpa using hb))
  | outline _ =>
    rw [Session.dispatch, sync_buffer] at hc
    exact .inl (h.dispatch_onLine (hp.line hc) rfl)
  | close _ =>
    left
    split
    · exact (h.exitEditor true).closeActive_onLine
    · exact h.closeActive_onLine
  | openPath path _ _ => exact .inl ((h.exitEditor false).openPath_onLine hp.exitEditor path)
  | nothing message _ _ => exact .inl (hp.line hc)

private theorem Placed.outlineKey_onLine (h : s.Placed) (hl : s.workspace.OnLine) (key : Key) :
    (s.outlineKey key).2.workspace.OnLine := by
  have ho := s.outlineKey_step key
  generalize (s.outlineKey key).2 = s' at ho
  cases ho with
  | quitOrBack =>
    rw [quitOrBack_workspace]
    exact hl
  | moveDown =>
    rw [s.moveDown_browses.workspace]
    exact hl
  | expandOrDescend =>
    rw [s.expandOrDescend_browses.workspace]
    exact hl
  | collapseOrAscend =>
    rw [s.collapseOrAscend_browses.workspace]
    exact hl
  | reveal => exact h.revealSelected_onLine hl
  | edit =>
    rw [enterEditor_workspace]
    exact h.revealSelected_onLine hl
  | moveUp | showFiles | beginCommand | nothing => exact hl

/-- The same after a key in any view. -/
private theorem Placed.pressWith_onLine (h : s.Placed) (hv : s.Paired) (hp : s.Pointing)
    (edit : Buffer → Buffer) (key : Key) (hc : (s.pressWith edit key).2.buffer = none) :
    (s.pressWith edit key).2.workspace.OnLine ∨
      s.commandGiven? key = some "q!" ∧ s.buffer.isSome = true ∧
        (s.pressWith edit key).2 = s.atCommand.exitEditor true := by
  unfold Session.pressWith at hc ⊢
  cases hview : s.view with
  | files =>
    have hl : s.workspace.OnLine := hp.line (hv.buffer_eq_none (.inl hview))
    left
    rcases s.fileKey_cases key with he | he | ⟨file, _, he⟩ <;> simp only [he]
    · exact h.openSelected_onLine hl
    · exact hl
    · exact hl
  | outline =>
    exact .inl (h.outlineKey_onLine (hp.line (hv.buffer_eq_none (.inr hview))) key)
  | editor =>
    simp only [hview] at hc
    left
    rcases s.editorKeyWith_cases edit key with ⟨hn, he⟩ | ⟨b, hb, he | he | he⟩ <;> simp only [he] at hc ⊢
    · exact hp.line hn
    · cases hb.symm.trans hc
    · exact hp.exitEditor
    · cases hc
  | command =>
    simp only [hview] at hc
    rcases s.commandKey_cases key with ⟨hk, he⟩ | he | ⟨command, he⟩ <;> simp only [he] at hc ⊢
    · have hplaced : s.atCommand.Placed :=
        h.aside s.disk _ _ s.buffer _ s.workspace.message s.workspace.cursor
      have hpointing : s.atCommand.Pointing := ⟨hp.row, hp.line⟩
      refine (hplaced.obey_onLine hpointing s.command hc).imp id fun ⟨hn, hb, hr⟩ => ⟨?_, hb, hr⟩
      exact commandGiven?_eq_some.mpr ⟨hview, hk, hn⟩
    · exact .inl (hp.line hc)
    · exact .inl (hp.line hc)

/-- Giving the edits up by name. -/
private theorem pressWith_of_commandGiven (hc : s.commandGiven? key = some "q!")
    (hb : s.buffer.isSome = true)
    (edit : Buffer → Buffer) : (s.pressWith edit key).2 = s.atCommand.exitEditor true := by
  obtain ⟨hv, rfl, hn⟩ := commandGiven?_eq_some.mp hc
  have ho : (s.atCommand.obey s.command).2 = s.atCommand.exitEditor true := by
    have hb' : s.atCommand.buffer.isSome = true := hb
    simp [obey, hn, hb']
  unfold pressWith
  rw [hv]
  exact ho

private theorem Placed.pressWith_onLine_iff (h : s.Placed) (hv : s.Paired) (hp : s.Pointing)
    (edit : Buffer → Buffer) (key : Key) :
    ((s.pressWith edit key).2.buffer = none → (s.pressWith edit key).2.workspace.OnLine) ↔
      ¬ s.Strays key := by
  constructor
  · rintro hl ⟨hc, b, d, hb, hd, hlt⟩
    have he := pressWith_of_commandGiven hc (by simp [hb]) edit
    rw [he] at hl
    refine (exitEditor_true_onLine_iff (s := s.atCommand) hb).mp (hl rfl) ⟨d, hd, hlt⟩
  · intro hn hc
    rcases h.pressWith_onLine hv hp edit key hc with hl | ⟨hg, hb, he⟩
    · exact hl
    · obtain ⟨b, hb⟩ := Option.isSome_iff_exists.mp hb
      rw [he]
      refine (exitEditor_true_onLine_iff (s := s.atCommand) hb).mpr fun ⟨d, hd, hlt⟩ => ?_
      exact hn ⟨hg, b, d, hb, hd, hlt⟩

/-! ### Sequences of keys -/

namespace Sitting
variable {t : Sitting}

/-- The cursor of an open buffer is on one of its rows. -/
def OnRow (t : Sitting) : Prop :=
  ∀ b, t.session.buffer = some b → b.OnRow

private theorem next_opens_onRow (ht : t.session.Turn s') (hn : t.session.buffer = none)
    (hb : s'.buffer = some b) : b.OnRow := by
  have hsame (hs : t.session.Attends s') : False := by simpa [hn, hb] using hs.buffer
  cases ht with
  | away hc _ => cases hc.symm.trans hb
  | loads d _ _ _ hl _ =>
    obtain ⟨row, column, hr, hl⟩ := hl
    obtain rfl := Option.some.inj (hb.symm.trans hl)
    rw [Buffer.OnRow, Buffer.length_rows_ofText, ← d.lineCount_eq_length]
    exact hr
  | stays hs | asks hs | returns hs => exact absurd hs hsame

/-- A buffer opens with the cursor on a row, and the editor keeps it on one. -/
private theorem Attended.onRow_press (h : t.Attended) (hr : t.OnRow) {p : Press} (hp : p.KeepsRow) :
    (t.press p).OnRow := by
  have hd := h.replaceDisk p.disk
  intro b' hb'
  cases hb : t.session.buffer with
  | none =>
    exact next_opens_onRow (hd.placed.pressWith_turn hd.paired p.edit p.key) hb hb'
  | some b =>
    rcases hd.paired.pressWith_buffer hb p.edit p.key with hn | hs | he
    · cases hn.symm.trans hb'
    · cases hs.symm.trans hb'
      exact hr b' hb
    · cases he.symm.trans hb'
      exact hp b (hr b hb)

/-- From the first outline on, after any keys and whatever the editor makes of those it gets: wherever no
buffer is open, the cursor is on a line of the active document and the preview shows that line, exactly if
no key of the run gives up an edit from a row beyond the document. -/
theorem cursor_on_line_iff_never_strays (disk : Files.Disk) (tracker : Tracker)
    (documents : List Document) (extensions : List String)
    (h : (documents.map Document.uri).Nodup) (ps : List Press) (hp : ∀ p ∈ ps, p.KeepsRow) :
    (∀ pre s d, pre <+: ps → ((begun disk tracker documents extensions).pressAll pre).session = s →
        s.buffer = none → s.workspace.activeDocument = some d →
        s.workspace.cursor.line < d.lineCount ∧ ∀ height, 0 < height →
          s.workspace.cursor.line ∈ Screen.previewLines d s.workspace.cursor.line height) ↔
      ∀ pre p, pre ++ [p] <+: ps →
        ¬ ((begun disk tracker documents extensions).pressAll pre).session.Strays p.key := by
  have hstart := begun_attended h disk tracker extensions
  have hnone := begun_buffer disk tracker documents extensions
  have hQ (t : Sitting) (ht : t.Attended ∧ t.OnRow) (p : Press) (hm : p ∈ ps) :
      (t.press p).Attended ∧ (t.press p).OnRow :=
    ⟨ht.1.press p, ht.1.onRow_press ht.2 (hp p hm)⟩
  have hP (t : Sitting) (ht : t.Attended ∧ t.OnRow) (hl : t.session.buffer = none → t.session.workspace.OnLine)
      (p : Press) (_ : p ∈ ps) :
      ((t.press p).session.buffer = none → (t.press p).session.workspace.OnLine) ↔
        ¬ t.session.Strays p.key := by
    have hd := ht.1.replaceDisk p.disk
    exact hd.placed.pressWith_onLine_iff hd.paired ⟨ht.2, hl⟩ p.edit p.key
  have hrow : (begun disk tracker documents extensions).OnRow := by
    intro b hb
    cases hnone.symm.trans hb
  have hline := started_onLine h disk tracker extensions
  refine Iff.trans ?_ (foldl_keeps_iff hQ hP ⟨hstart, hrow⟩ fun _ => hline)
  constructor
  · exact fun hl pre hpre hb d hd => (hl pre _ d hpre rfl hb hd).1
  · rintro hl pre s d hpre rfl hb hd
    have hlt := hl pre hpre hb d hd
    exact ⟨hlt, fun height hh => (Screen.mem_previewLines_iff hh).mpr hlt⟩

/-- A row is added and the edit kept. The cursor stays on the row that was added. -/
theorem cursor_on_line_of_kept_row :
    let keys := [.char 'e', .char 'i', .enter, .escape, .char ':', .char 'q', .enter]
    let presses := keys.map (Press.own (.ofFolder [] []))
    ([⟨"a.yaml", "yaml", "a"⟩].map Document.uri).Nodup ∧ (∀ p ∈ presses, p.KeepsRow) ∧
      ∃ s d, ((begun (.ofFolder [] []) {} [⟨"a.yaml", "yaml", "a"⟩] []).pressAll presses).session = s ∧
        s.buffer = none ∧ s.workspace.activeDocument = some d ∧ s.workspace.cursor.line = 1 ∧
          1 ∈ Screen.previewLines d 1 3 := by
  intro keys presses
  have h : ([⟨"a.yaml", "yaml", "a"⟩].map Document.uri).Nodup := by decide
  have hp : ∀ p ∈ presses, p.KeepsRow := by
    intro p hm
    obtain ⟨key, _, rfl⟩ := List.mem_map.mp hm
    exact Press.own_keepsRow _ key
  have hnone : ∀ n < 7, ∀ key ∈ keys[n]?,
      ((begun (.ofFolder [] []) {} [⟨"a.yaml", "yaml", "a"⟩] []).pressAll
        (presses.take n)).session.commandGiven? key ≠ some "q!" := by decide
  refine ⟨h, hp, _, ⟨"a.yaml", "yaml", "\na"⟩, rfl, by decide, by decide, by decide, ?_⟩
  refine ((cursor_on_line_iff_never_strays (.ofFolder [] []) {} _ [] h presses hp).mpr ?_
    presses _ ⟨"a.yaml", "yaml", "\na"⟩ List.prefix_rfl rfl (by decide) (by decide)).2 3 (by decide)
  rintro pre p ⟨post, hpost⟩ ⟨hc, -⟩
  have hl := congrArg List.length hpost
  have htake : presses.take pre.length = pre := by rw [← hpost]; simp
  have hget : presses[pre.length]? = some p := by rw [← hpost]; simp
  obtain ⟨key, hkey, rfl⟩ := Option.map_eq_some_iff.mp (List.getElem?_map.symm.trans hget)
  have hlt : pre.length < 7 := by
    simp [presses, keys] at hl
    omega
  have hstep := hnone pre.length hlt key hkey
  rw [htake] at hstep
  exact hstep hc

/-- A row is added and the edit given up. The cursor stays on the row, and the document does not have
it. -/
theorem cursor_beyond_discarded_row :
    ([⟨"a.yaml", "yaml", "a"⟩].map Document.uri).Nodup ∧
      ∃ s d, ((begun (.ofFolder [] []) {} [⟨"a.yaml", "yaml", "a"⟩] []).pressAll
          ([.char 'e', .char 'i', .enter, .escape, .char ':', .char 'q', .char '!', .enter].map
            (Press.own (.ofFolder [] [])))).session = s ∧
        s.buffer = none ∧ s.workspace.activeDocument = some d ∧
          ¬ s.workspace.cursor.line < d.lineCount ∧
            s.workspace.cursor.line ∉ Screen.previewLines d s.workspace.cursor.line 3 :=
  ⟨by decide, _, ⟨"a.yaml", "yaml", "a"⟩, rfl, by decide, by decide, by decide, by decide⟩

end Sitting

end Session

end YamlOutline
