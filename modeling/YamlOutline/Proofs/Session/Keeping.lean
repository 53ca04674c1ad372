import YamlOutline.Proofs.Buffer.Resaving
import YamlOutline.Proofs.Files.Writing
import YamlOutline.Proofs.Session.Editing
import YamlOutline.Proofs.Session.Keyboard

/-! What becomes of edits. However keys follow each other, a buffer that is closed was taken over by
the document that it was loaded from, unless it was given up by name, and the only file that is ever
written is that document's. Whether writing succeeds is left to the disk. -/

namespace YamlOutline.Session
variable {s s' : Session} {d : Document} {b : Buffer}

/-- A document with the text of a buffer, and with the line endings that it had. -/
def taken (b : Buffer) (d : Document) : Document :=
  { d with text := matchLineEndings b.text d.text }

/-- The command that a key gives: the first word of the command line that it ends. -/
def commandGiven? (s : Session) (key : Key) : Option String :=
  if s.view = .command ∧ key = .enter then some (splitCommand s.command).1 else none

theorem commandGiven?_eq_some {key : Key} {name : String} :
    s.commandGiven? key = some name ↔
      s.view = .command ∧ key = .enter ∧ (splitCommand s.command).1 = name := by
  simp [commandGiven?, and_assoc]

/-- What the editor makes of the buffer has no newline inside a row, if there was none. -/
def Press.KeepsRows (p : Press) : Prop :=
  ∀ b : Buffer, b.Lacks '\n' → (p.edit b).Lacks '\n'

/-- The session's own editor breaks a row where a newline is asked for. -/
private theorem Press.own_keepsRows (disk : Files.Disk) {key : Key} (h : key ≠ .char '\n') :
    (Press.own disk key).KeepsRows :=
  fun _ hb => hb.press (by decide) h

/-! ### The disk -/

private theorem exitEditor_disk (s : Session) (discard : Bool) :
    (s.exitEditor discard).disk = s.disk := by
  rcases s.exitEditor_cases discard with ⟨_, he⟩ | ⟨_, uri, text, _, he⟩ <;> rw [he]
  exact sync_disk _

private theorem closeActive_disk (s : Session) : s.closeActive.disk = s.disk := sync_disk _

private theorem openPath_disk (s : Session) (path : String) : (s.openPath path).disk = s.disk := by
  rcases s.openPath_cases path with ⟨_, he⟩ | ⟨index, isMulti, _, he⟩ <;> rw [he] <;>
    exact sync_disk _

private theorem quitOrBack_disk (s : Session) : s.quitOrBack.2.disk = s.disk := by
  unfold quitOrBack
  split <;> rfl

private theorem revealSelected_disk (s : Session) : s.revealSelected.disk = s.disk := by
  unfold revealSelected
  split
  · rfl
  · exact sync_disk _

/-- Only a command that saves while a buffer is open writes to the disk. -/
private theorem obey_disk (s : Session) (line : String) :
    (s.obey line).2.disk = s.disk ∨ s.buffer.isSome = true ∧
      ((splitCommand line).1 = "w" ∨ (splitCommand line).1 = "x") := by
  have ho := s.obey_obeys line
  generalize (s.obey line).2 = s' at ho
  cases ho with
  | write s' hn _ hb => exact .inr ⟨hb, .inl hn⟩
  | writeAndLeave s' hn _ hb => exact .inr ⟨hb, .inr hn⟩
  | leave discard _ _ => exact .inl (exitEditor_disk ..)
  | back _ _ => exact .inl s.quitOrBack_disk
  | outline _ => exact .inl (sync_disk _)
  | close _ =>
    rw [closeActive_disk]
    split
    · exact .inl (exitEditor_disk ..)
    · exact .inl rfl
  | openPath path _ _ => exact .inl ((openPath_disk ..).trans (exitEditor_disk ..))
  | writeFails | nothing => exact .inl rfl

private theorem fileKey_disk (s : Session) (key : Key) : (s.fileKey key).2.disk = s.disk := by
  rcases s.fileKey_cases key with he | he | ⟨file, _, he⟩ <;> rw [he]
  · exact sync_disk _
  · rfl

private theorem outlineKey_disk (s : Session) (key : Key) : (s.outlineKey key).2.disk = s.disk := by
  have ho := s.outlineKey_step key
  generalize (s.outlineKey key).2 = s' at ho
  cases ho with
  | quitOrBack => exact s.quitOrBack_disk
  | moveDown => exact s.moveDown_browses.disk
  | expandOrDescend => exact s.expandOrDescend_browses.disk
  | collapseOrAscend => exact s.collapseOrAscend_browses.disk
  | reveal => exact s.revealSelected_disk
  | edit =>
    unfold enterEditor
    split <;> exact s.revealSelected_disk
  | moveUp | showFiles | beginCommand | nothing => rfl

private theorem editorKeyWith_disk (s : Session) (edit : Buffer → Buffer) (key : Key) :
    (s.editorKeyWith edit key).2.disk = s.disk := by
  rcases s.editorKeyWith_cases edit key with ⟨_, he⟩ | ⟨b, _, he | he | he⟩ <;> rw [he]
  · rfl
  · exact exitEditor_disk ..

private theorem commandKey_disk (s : Session) (key : Key) :
    (s.commandKey key).2.disk = s.disk ∨ s.buffer.isSome = true ∧ key = .enter ∧
      ((splitCommand s.command).1 = "w" ∨ (splitCommand s.command).1 = "x") := by
  rcases s.commandKey_cases key with ⟨hk, he⟩ | he | ⟨command, he⟩ <;> rw [he]
  · exact (s.atCommand.obey_disk s.command).imp id fun ⟨hb, hn⟩ => ⟨hb, hk, hn⟩
  · exact .inl rfl
  · exact .inl rfl

/-- A key writes to the disk only if it gives a command that saves, while a buffer is open. -/
private theorem pressWith_disk (s : Session) (edit : Buffer → Buffer) (key : Key) :
    (s.pressWith edit key).2.disk = s.disk ∨ s.buffer.isSome = true ∧
      (s.commandGiven? key = some "w" ∨ s.commandGiven? key = some "x") := by
  unfold pressWith
  cases hv : s.view with
  | files => exact .inl (s.fileKey_disk key)
  | outline => exact .inl (s.outlineKey_disk key)
  | editor => exact .inl (s.editorKeyWith_disk edit key)
  | command =>
    refine (s.commandKey_disk key).imp id fun ⟨hb, he, hn⟩ => ⟨hb, ?_⟩
    simpa [commandGiven?_eq_some, hv, he] using hn

/-! ### The buffer's document -/

private theorem mem_of_activeDocument {w : Workspace} (h : w.activeDocument = some d) :
    d ∈ w.documents := by
  obtain ⟨i, _, hi⟩ := Workspace.activeDocument_eq_some.mp h
  exact List.mem_of_getElem? hi

/-- The edit that is pending for the active document, with its line endings. -/
theorem pendingEdit?_of_buffer (hb : s.buffer = some b) (hd : s.workspace.activeDocument = some d) :
    s.pendingEdit? = some (d.uri, (taken b d).text) :=
  pendingEdit?_eq_some.mpr ⟨b, d, hb, hd, rfl, rfl⟩

/-- Opening a file closes no document and leaves every text alone. -/
private theorem mem_openPath (h : d ∈ s.workspace.documents) (path : String) :
    d ∈ (s.openPath path).workspace.documents := by
  have hw : d ∈ (s.workspace.openFile s.disk path).2.documents := by
    rcases s.workspace.openFile_cases s.disk path with
      ⟨i, _, he⟩ | ⟨_, ⟨e, _, he⟩ | ⟨message, he⟩⟩ <;> rw [he]
    · rcases s.workspace.focus_cases i with ⟨hf, _⟩ | ⟨_, _, hf⟩ <;> rw [hf] <;> exact h
    · have ha : d ∈ (s.workspace.add e).documents := List.mem_append_left _ h
      rcases (s.workspace.add e).focus_cases s.workspace.documents.length with
        ⟨hf, _⟩ | ⟨_, _, hf⟩ <;> rw [hf] <;> exact ha
    · exact h
  have hs (r : Session) (hr : d ∈ r.workspace.documents) : d ∈ r.sync.workspace.documents := by
    obtain ⟨ds, hg⟩ := r.drain_delivers.grows
    rw [sync_workspace]
    exact hg.documents ▸ List.mem_append_left ds hr
  rcases s.openPath_cases path with ⟨_, he⟩ | ⟨index, isMulti, _, he⟩ <;> rw [he] <;>
    exact hs _ hw

theorem save_buffer (hs : s.save = .ok s') : s'.buffer = s.buffer := by
  rcases save_cases hs with ⟨_, rfl⟩ | ⟨uri, text, disk, _, _, rfl⟩
  · rfl
  · exact commitEdit_buffer { s with disk } text

/-- Saving that fails did not get past the disk. -/
private theorem save_eq_error {e : Files.Failure} (hs : s.save = .error e) :
    ∃ uri text, s.pendingEdit? = some (uri, text) ∧ s.disk.write uri text = .error e := by
  unfold save at hs
  cases hp : s.pendingEdit? with
  | none =>
    rw [hp] at hs
    cases hs
  | some edit =>
    obtain ⟨uri, text⟩ := edit
    simp only [hp] at hs
    cases hw : s.disk.write uri text with
    | error e' =>
      simp only [hw, bind, Except.bind, Except.error.injEq] at hs
      exact ⟨uri, text, rfl, hs ▸ hw⟩
    | ok disk =>
      rw [hw] at hs
      cases hs

/-- A document that has taken a buffer over gets nothing new from it. -/
private theorem taken_taken (ht : Bare b.text) (d : Document) :
    taken b (taken b d) = taken b d := by
  simp only [taken, matchLineEndings_again ht]

/-- What is pending after a save is the text that was saved. -/
theorem pendingEdit?_save (hb : s.buffer = some b) (ht : Bare b.text)
    (hd : s.workspace.activeDocument = some d) (hs : s.save = .ok s') :
    s'.pendingEdit? = some (d.uri, (taken b d).text) := by
  obtain ⟨_, hd'⟩ := save_activeDocument hd (pendingEdit?_of_buffer hb hd) hs
  rw [pendingEdit?_of_buffer ((save_buffer hs).trans hb) hd']
  exact congrArg (fun d' => some (d.uri, Document.text d')) (taken_taken ht d)

/-- Leaving the editor after a save changes nothing, since the text is already what it is put to. -/
private theorem exitEditor_save (hb : s.buffer = some b) (hl : b.Lacks '\n')
    (hd : s.workspace.activeDocument = some d) (hs : s.save = .ok s') :
    (s'.exitEditor false).workspace.activeDocument =
      some (taken b d) := by
  obtain ⟨_, hd'⟩ := save_activeDocument hd (pendingEdit?_of_buffer hb hd) hs
  rw [exitEditor_activeDocument hd' (pendingEdit?_save hb hl.text_bare hd hs)]
  rfl

/-- A command line that closes the buffer: it gives the edit up by name, or the active document has
it afterwards. -/
private theorem obey_closes (hb : s.buffer = some b) (hl : b.Lacks '\n')
    (hd : s.workspace.activeDocument = some d) (line : String)
    (hc : (s.obey line).2.buffer = none) :
    (splitCommand line).1 = "q!" ∨ (splitCommand line).1 = "close" ∨
      taken b d ∈ (s.obey line).2.workspace.documents := by
  have hp := pendingEdit?_of_buffer hb hd
  have ho := s.obey_obeys line
  generalize (s.obey line).2 = s' at ho hc
  cases ho with
  | write s' _ hs _ => simp [save_buffer hs, hb] at hc
  | writeAndLeave s' _ hs _ => exact .inr (.inr (mem_of_activeDocument (exitEditor_save hb hl hd hs)))
  | writeFails e _ _ _ => simp [saveFailed, hb] at hc
  | leave discard hn _ =>
    cases discard with
    | true => exact .inl hn
    | false => exact .inr (.inr (mem_of_activeDocument (exitEditor_activeDocument hd hp)))
  | back _ hn => simp [hb] at hn
  | outline _ =>
    rw [dispatch, sync_buffer] at hc
    exact absurd (hb.symm.trans hc) (by simp)
  | close hn => exact .inr (.inl hn)
  | openPath path _ _ =>
    exact .inr (.inr (mem_openPath (mem_of_activeDocument (exitEditor_activeDocument hd hp)) path))
  | nothing message _ _ => simp [hb] at hc

/-- Whatever key closes the buffer, the edit is kept or was given up by name. -/
private theorem Paired.pressWith_closes (h : s.Paired) (hb : s.buffer = some b) (hl : b.Lacks '\n')
    (hd : s.workspace.activeDocument = some d) (edit : Buffer → Buffer) (key : Key)
    (hc : (s.pressWith edit key).2.buffer = none) :
    s.commandGiven? key = some "q!" ∨ s.commandGiven? key = some "close" ∨
      taken b d ∈ (s.pressWith edit key).2.workspace.documents := by
  rcases h.pressWith_eq hb edit key with ⟨_, hp⟩ | ⟨hv, hp⟩ <;> rw [hp] at hc ⊢
  · rcases s.editorKeyWith_cases edit key with ⟨hn, _⟩ | ⟨b', _, he | he | he⟩
    · cases hb.symm.trans hn
    · rw [he, beginCommand, hb] at hc
      cases hc
    · rw [he]
      exact .inr (.inr (mem_of_activeDocument
        (exitEditor_activeDocument hd (pendingEdit?_of_buffer hb hd))))
    · rw [he] at hc
      cases hc
  · rcases s.commandKey_cases key with ⟨hk, he⟩ | he | ⟨command, he⟩ <;> rw [he] at hc ⊢
    · have ho := obey_closes (s := s.atCommand) hb hl hd s.command hc
      simp only [commandGiven?_eq_some, hv, hk, true_and]
      exact ho
    · cases hb.symm.trans hc
    · cases hb.symm.trans hc

/-- A command that saves writes the text that the active document gets, or finds that it cannot and
changes nothing but the view and the message. -/
private theorem obey_saves (hb : s.buffer = some b) (hl : b.Lacks '\n')
    (hd : s.workspace.activeDocument = some d) {line : String}
    (hn : (splitCommand line).1 = "w" ∨ (splitCommand line).1 = "x") :
    (∃ disk, s.disk.write d.uri (taken b d).text = .ok disk ∧
        (s.obey line).2.disk = disk ∧
        taken b d ∈ (s.obey line).2.workspace.documents) ∨
      ∃ e, s.disk.write d.uri (taken b d).text = .error e ∧
        (s.obey line).2 = s.saveFailed e := by
  have hp := pendingEdit?_of_buffer hb hd
  have ho := s.obey_obeys line
  generalize (s.obey line).2 = s' at ho
  cases ho with
  | write s' _ hs _ =>
    obtain ⟨hw, hd'⟩ := save_activeDocument hd hp hs
    exact .inl ⟨_, hw, rfl, mem_of_activeDocument hd'⟩
  | writeAndLeave s' _ hs _ =>
    obtain ⟨hw, _⟩ := save_activeDocument hd hp hs
    exact .inl ⟨_, hw, exitEditor_disk .., mem_of_activeDocument (exitEditor_save hb hl hd hs)⟩
  | writeFails e _ hs _ =>
    obtain ⟨uri, text, hp', hw⟩ := save_eq_error hs
    cases hp.symm.trans hp'
    exact .inr ⟨e, hw, rfl⟩
  | leave discard hm _ => cases discard <;> simp [hm] at hn
  | back hm _ => rcases hm with hm | hm <;> simp [hm] at hn
  | outline hm | close hm | openPath _ hm => simp [hm] at hn
  | nothing message _ hno => simp [hb, hn] at hno

/-- The same for the key that gives the command. -/
private theorem pressWith_saves (hb : s.buffer = some b) (hl : b.Lacks '\n')
    (hd : s.workspace.activeDocument = some d) (edit : Buffer → Buffer) {key : Key}
    (hc : s.commandGiven? key = some "w" ∨ s.commandGiven? key = some "x") :
    (∃ disk, s.disk.write d.uri (taken b d).text = .ok disk ∧
        (s.pressWith edit key).2.disk = disk ∧
        taken b d ∈ (s.pressWith edit key).2.workspace.documents) ∨
      ∃ e, s.disk.write d.uri (taken b d).text = .error e ∧
        (s.pressWith edit key).2 = s.atCommand.saveFailed e := by
  simp only [commandGiven?_eq_some, ← and_or_left] at hc
  obtain ⟨hv, rfl, hn⟩ := hc
  have hp : (s.pressWith edit .enter).2 = (s.atCommand.obey s.command).2 := by
    unfold pressWith
    rw [hv]
    rfl
  rw [hp]
  exact obey_saves (s := s.atCommand) hb hl hd hn

/-! ### Sequences of keys -/

/-- A command line leaves the buffer as it is, or closes it. -/
theorem obey_buffer (s : Session) (line : String) :
    (s.obey line).2.buffer = none ∨ (s.obey line).2.buffer = s.buffer := by
  have ho := s.obey_obeys line
  generalize (s.obey line).2 = s' at ho
  cases ho with
  | write s' _ hs _ => exact .inr (save_buffer hs)
  | writeAndLeave s' _ _ _ => exact .inl (exitEditor_buffer ..)
  | leave discard _ _ => exact .inl (exitEditor_buffer ..)
  | back _ _ => exact .inr s.quitOrBack_buffer
  | outline _ => exact .inr (sync_buffer _)
  | close _ =>
    rw [closeActive_buffer]
    split
    · exact .inl (exitEditor_buffer ..)
    · exact .inr rfl
  | openPath path _ _ => exact .inl (openPath_buffer _ path)
  | writeFails | nothing => exact .inr rfl

/-- A key leaves an open buffer as it is, closes it or edits it. -/
theorem Paired.pressWith_buffer (h : s.Paired) (hb : s.buffer = some b) (edit : Buffer → Buffer)
    (key : Key) :
    (s.pressWith edit key).2.buffer = none ∨ (s.pressWith edit key).2.buffer = some b ∨
      (s.pressWith edit key).2.buffer = some (edit b) := by
  rcases h.pressWith_eq hb edit key with ⟨_, hp⟩ | ⟨_, hp⟩ <;> rw [hp]
  · rcases s.editorKeyWith_cases edit key with ⟨hn, _⟩ | ⟨b', hb', he | he | he⟩
    · cases hb.symm.trans hn
    · rw [he]
      exact .inr (.inl hb)
    · rw [he]
      exact .inl (exitEditor_buffer ..)
    · cases hb.symm.trans hb'
      rw [he]
      exact .inr (.inr rfl)
  · rcases s.commandKey_cases key with ⟨_, he⟩ | he | ⟨command, he⟩ <;> rw [he]
    · exact (s.atCommand.obey_buffer s.command).imp id fun he => .inl (he.trans hb)
    · exact .inr (.inl hb)
    · exact .inr (.inl hb)

namespace Sitting
variable {t : Sitting}

/-- No row of the buffer has a newline in it. -/
def RowsLackNewlines (t : Sitting) : Prop :=
  ∀ b, t.session.buffer = some b → b.Lacks '\n'

/-- The step lemma: rows are loaded without newlines, and the editor puts none into them. -/
private theorem Attended.rowsLackNewlines_press (h : t.Attended) (hl : t.RowsLackNewlines)
    {p : Press}
    (hp : p.KeepsRows) : (t.press p).RowsLackNewlines := by
  have hd := h.replaceDisk p.disk
  intro b' hb'
  cases hb : t.session.buffer with
  | none =>
    obtain ⟨d, _, _, hr⟩ := next_opens (hd.placed.pressWith_turn hd.paired p.edit p.key) hb hb'
    intro row hrow
    exact Buffer.Lacks.ofText d.text row (hr ▸ hrow)
  | some b =>
    rcases hd.paired.pressWith_buffer hb p.edit p.key with hn | hs | he
    · cases hn.symm.trans hb'
    · cases hs.symm.trans hb'
      exact hl b' hb
    · cases he.symm.trans hb'
      exact hp b (hl b hb)

/-- The run lemma. -/
private theorem Attended.rowsLackNewlines_pressAll (h : t.Attended) (hl : t.RowsLackNewlines)
    {ps : List Press} (hp : ∀ p ∈ ps, p.KeepsRows) : (t.pressAll ps).RowsLackNewlines := by
  induction ps generalizing t with
  | nil => exact hl
  | cons p ps ih =>
    have hps : ∀ q ∈ ps, q.KeepsRows := fun q hq => hp q (List.mem_cons_of_mem p hq)
    exact ih (h.press p) (h.rowsLackNewlines_press hl (hp p List.mem_cons_self)) hps

/-- After any keys, and whatever becomes of the disk between them, the next key `p` loses no edit and
writes no other file. A buffer that it closes was given up by name, or the document that the buffer
was loaded from has its text; only a command that saves writes, to the file of that document, what
the document has then; and if writing fails, everything is as it was before the command line. -/
theorem edits_kept_and_written_by_name (disk : Files.Disk) (tracker : Tracker)
    (documents : List Document) (extensions : List String)
    (h : (documents.map Document.uri).Nodup) (ps : List Press) (hp : ∀ p ∈ ps, p.KeepsRows)
    (p : Press) :
    ∀ t s', (begun disk tracker documents extensions).pressAll ps = t →
      (t.press p).session = s' →
      (s'.workspace.documents.map Document.uri).Nodup ∧
      (∀ b, t.session.buffer = some b → s'.buffer = none →
        t.session.commandGiven? p.key = some "q!" ∨ t.session.commandGiven? p.key = some "close" ∨
          ∃ d ∈ t.session.workspace.documents, t.loaded = some d.uri ∧
            taken b d ∈ s'.workspace.documents) ∧
      (s'.disk = p.disk ∨ t.session.buffer.isSome = true ∧
        (t.session.commandGiven? p.key = some "w" ∨ t.session.commandGiven? p.key = some "x")) ∧
      (∀ b, t.session.buffer = some b →
        t.session.commandGiven? p.key = some "w" ∨ t.session.commandGiven? p.key = some "x" →
        ∃ d ∈ t.session.workspace.documents, t.loaded = some d.uri ∧
          (∀ disk', p.disk.write d.uri (taken b d).text = .ok disk' →
            s'.disk = disk' ∧ p.disk.Wrote d.uri (taken b d).text disk' ∧
              taken b d ∈ s'.workspace.documents) ∧
          (∀ e, p.disk.write d.uri (taken b d).text = .error e →
            s'.disk = p.disk ∧ s'.workspace.documents = t.session.workspace.documents ∧
              s'.tracker = t.session.tracker ∧ s'.rows = t.session.rows ∧
              s'.buffer = some b ∧ s'.view = .editor)) := by
  rintro t s' ht rfl
  have hb := begun_attended h disk tracker extensions
  have ha : t.Attended := ht ▸ hb.pressAll ps
  have hrows : t.RowsLackNewlines := ht ▸ hb.rowsLackNewlines_pressAll
    (fun b hs => by simp [begun_buffer disk tracker documents extensions] at hs) hp
  have hd := ha.replaceDisk p.disk
  refine ⟨(ha.press p).placed.sound.distinct, fun b hs hc => ?_,
    pressWith_disk { t.session with disk := p.disk } p.edit p.key, fun b hs hc => ?_⟩
  · obtain ⟨d, hact, hload⟩ := ha.loaded b hs
    refine (hd.paired.pressWith_closes hs (hrows b hs) hact p.edit p.key hc).imp id
      (Or.imp id fun hm => ?_)
    exact ⟨d, mem_of_activeDocument hact, hload, hm⟩
  · obtain ⟨d, hact, hload⟩ := ha.loaded b hs
    refine ⟨d, mem_of_activeDocument hact, hload, ?_⟩
    rcases pressWith_saves (s := { t.session with disk := p.disk }) hs (hrows b hs) hact p.edit hc with
      ⟨disk', hw, hdisk, hm⟩ | ⟨e, hw, he⟩
    · refine ⟨fun disk'' hw' => ?_, fun e hw' => ?_⟩
      · cases hw.symm.trans hw'
        exact ⟨hdisk, Files.Disk.write_wrote hw, hm⟩
      · cases hw.symm.trans hw'
    · refine ⟨fun disk' hw' => ?_, fun e' hw' => ?_⟩
      · cases hw.symm.trans hw'
      · have hprev : t.session.previous = .editor := by
          simp only [commandGiven?_eq_some, ← and_or_left] at hc
          simpa [hs, hc.1] using ha.paired.buffer
        have hrun : (t.press p).session = { t.session with disk := p.disk }.atCommand.saveFailed e :=
          he
        rw [hrun]
        exact ⟨rfl, rfl, rfl, rfl, hs, hprev⟩

/-- A letter is typed into a file with carriage returns, and `:x` saves it. -/
theorem edits_kept_and_written_by_name_when_saved :
    let disk : Files.Disk := .ofFolder [] [.mk "a.yaml" (.file (.text "k: 1\r\n"))]
    let presses := [.char 'e', .char 'i', .char 'x', .escape, .char ':', .char 'x'].map (Press.own disk)
    ([⟨"a.yaml", "yaml", "k: 1\r\n"⟩].map Document.uri).Nodup ∧ (∀ p ∈ presses, p.KeepsRows) ∧
      ∃ t s', (begun disk {} [⟨"a.yaml", "yaml", "k: 1\r\n"⟩] []).pressAll presses = t ∧
        (t.press (Press.own disk .enter)).session = s' ∧ s'.buffer = none ∧
        ∃ b d, t.session.buffer = some b ∧ t.loaded = some d.uri ∧
          s'.disk.read d.uri = .ok (taken b d).text := by
  intro disk presses
  have h : ([⟨"a.yaml", "yaml", "k: 1\r\n"⟩].map Document.uri).Nodup := by decide
  have hp : ∀ p ∈ presses, p.KeepsRows := by
    intro p hp
    obtain ⟨key, hk, rfl⟩ := List.mem_map.mp hp
    refine Press.own_keepsRows disk ?_
    rintro rfl
    simp at hk
  have hkeeps := edits_kept_and_written_by_name disk {} _ [] h presses hp (Press.own disk .enter)
  refine ⟨h, hp, ?_⟩
  have hopen : ((begun disk {} [⟨"a.yaml", "yaml", "k: 1\r\n"⟩] []).pressAll
      presses).session.buffer.isSome = true := by decide
  have hgiven : ((begun disk {} [⟨"a.yaml", "yaml", "k: 1\r\n"⟩] []).pressAll
      presses).session.commandGiven? .enter = some "x" := by decide
  have hclosed : (((begun disk {} [⟨"a.yaml", "yaml", "k: 1\r\n"⟩] []).pressAll
      presses).press (Press.own disk .enter)).session.buffer = none := by decide
  generalize (begun disk {} [⟨"a.yaml", "yaml", "k: 1\r\n"⟩] []).pressAll presses = t at *
  obtain ⟨_, _, _, hsaves⟩ := hkeeps t _ rfl rfl
  obtain ⟨b, hb⟩ := Option.isSome_iff_exists.mp hopen
  obtain ⟨d, _, hload, hok, hfails⟩ := hsaves b hb (.inr hgiven)
  refine ⟨t, _, rfl, rfl, hclosed, b, d, hb, hload, ?_⟩
  -- Had writing failed, the buffer would be open.
  cases hw : disk.write d.uri (taken b d).text with
  | error e =>
    obtain ⟨_, _, _, _, hb', _⟩ := hfails e hw
    cases hclosed.symm.trans hb'
  | ok disk' =>
    obtain ⟨hdisk, hwrote, _⟩ := hok disk' hw
    rw [hdisk]
    exact hwrote.1

end Sitting

end YamlOutline.Session
