import YamlOutline.Proofs.Session.Reporting

/-! Saving twice. The line ending and the newline at the end are chosen again from the text that was just
written, and come out the same, so that the next save writes the same file and leaving commits nothing. -/

namespace YamlOutline.Session
variable {s s' : Session} {d : Document} {b : Buffer}

/-! ### The rows of the buffer -/

/-- What the step puts into the buffer has no newline inside a row. -/
def Step.KeepsRows : Step → Prop
  | .own (.edit buffer) => buffer.Lacks '\n'
  | _ => True

/-- No row of the buffer has a newline in it. -/
def RowsLackNewlines (s : Session) : Prop :=
  ∀ b, s.buffer = some b → b.Lacks '\n'

private theorem RowsLackNewlines.of_buffer (h : s.RowsLackNewlines)
    (hb : s'.buffer = none ∨ s'.buffer = s.buffer) :
    s'.RowsLackNewlines := by
  intro b hs
  rcases hb with hn | he
  · cases hn.symm.trans hs
  · exact h b (he ▸ hs)

private theorem enterEditor_rowsLackNewlines (h : s.RowsLackNewlines) :
    s.enterEditor.RowsLackNewlines := by
  cases hd : s.workspace.activeDocument with
  | none =>
    have he : s.enterEditor = s := by simp only [enterEditor, hd]
    exact he.symm ▸ h
  | some d =>
    obtain ⟨row, column, hb⟩ := enterEditor_buffer hd
    intro b hs
    obtain rfl := Option.some.inj (hb.symm.trans hs)
    exact Buffer.Lacks.ofText d.text

private theorem revealSelected_buffer (s : Session) : s.revealSelected.buffer = s.buffer := by
  unfold revealSelected
  split
  · rfl
  · exact sync_buffer _

private theorem save_run_buffer (s : Session) : (Operation.run s .save).buffer = s.buffer := by
  simp only [Operation.run]
  split
  · rename_i s' hs
    exact save_buffer hs
  · rfl

/-- The step lemma: a document is loaded row by row, and no operation but an edit puts anything else into
the buffer. -/
private theorem RowsLackNewlines.run (h : s.RowsLackNewlines) {step : Step} (hk : step.KeepsRows) :
    (step.run s).RowsLackNewlines := by
  cases step with
  | workspace op => exact h
  | own op =>
    cases op with
    | enterEditor => exact enterEditor_rowsLackNewlines h
    | edit buffer =>
      intro b hs
      obtain ⟨_, _, rfl⟩ := Option.map_eq_some_iff.mp hs
      exact hk
    | sync => exact h.of_buffer (.inr s.sync_buffer)
    | dispatch command => exact h.of_buffer (.inr (sync_buffer _))
    | moveDown => exact h.of_buffer (.inr s.moveDown_browses.buffer)
    | expandOrDescend => exact h.of_buffer (.inr s.expandOrDescend_browses.buffer)
    | collapseOrAscend => exact h.of_buffer (.inr s.collapseOrAscend_browses.buffer)
    | revealSelected => exact h.of_buffer (.inr s.revealSelected_buffer)
    | openSelected => exact h.of_buffer (.inr (sync_buffer _))
    | openPath path => exact h.of_buffer (.inr (s.openPath_buffer path))
    | closeActive => exact h.of_buffer (.inr s.closeActive_buffer)
    | save => exact h.of_buffer (.inr s.save_run_buffer)
    | exitEditor discard => exact h.of_buffer (.inl (exitEditor_buffer ..))
    | runCommand => exact h.of_buffer (s.atCommand.obey_buffer s.command)
    | quitOrBack => exact h.of_buffer (.inr s.quitOrBack_buffer)
    | moveUp | beginCommand | cancelCommand | selectFile | typeCommand | «show» | replaceDisk =>
      exact h.of_buffer (.inr rfl)

/-- The run lemma. -/
private theorem RowsLackNewlines.runAll (h : s.RowsLackNewlines) {steps : List Step}
    (hk : ∀ step ∈ steps, step.KeepsRows) : (s.run steps).RowsLackNewlines := by
  induction steps generalizing s with
  | nil => exact h
  | cons step steps ih =>
    obtain ⟨hstep, hsteps⟩ := List.forall_mem_cons.mp hk
    exact ih (h.run hstep) hsteps

private theorem started_rowsLackNewlines (disk : Files.Disk) (tracker : Tracker)
    (documents : List Document)
    (extensions : List String) : (started disk tracker documents extensions).RowsLackNewlines := by
  intro b hs
  rw [started, start, sync_buffer] at hs
  cases hs

/-! ### After a save -/

/-- A save has delivered what it committed, if there was anything to commit. -/
private theorem save_settled (hd : s.workspace.activeDocument = some d) (hb : s.buffer = some b)
    (hs : s.save = .ok s') : s'.Settled := by
  obtain ⟨disk, _, rfl⟩ := save_of_pendingEdit? (pendingEdit?_of_buffer hb hd) hs
  obtain ⟨hpending, hdrawn⟩ :=
    sync_settled { s with disk, workspace := s.workspace.commit (taken b d).text }
  exact ⟨hpending, hdrawn⟩

/-- Leaving after a save closes the buffer and does nothing else. -/
private theorem exitEditor_save_eq (hb : s.buffer = some b) (ht : Bare b.text)
    (hs : s.save = .ok s') :
    s'.exitEditor false =
      { s' with workspace.cursor := ⟨b.row, b.column⟩, buffer := none, view := .outline } := by
  have hcursor : s'.leavingCursor = ⟨b.row, b.column⟩ := by
    simp only [leavingCursor, (save_buffer hs).trans hb]
  cases hd : s.workspace.activeDocument with
  | none =>
    -- Without a document there is nothing to save and nothing to commit.
    have hn : s.pendingEdit? = none := by simp [pendingEdit?, hb, hd]
    rcases save_cases hs with ⟨_, rfl⟩ | ⟨uri, text, disk, hp, _, _⟩
    · rcases s'.exitEditor_cases false with ⟨_, he⟩ | ⟨_, uri, text, hp, _⟩
      · rw [he, hcursor]
      · cases hn.symm.trans hp
    · cases hn.symm.trans hp
  | some d =>
    obtain ⟨_, hd'⟩ := save_activeDocument hd (pendingEdit?_of_buffer hb hd) hs
    have hsame : s'.commitEdit (taken b d).text = s' := commitEdit_self (save_settled hd hb hs) hd'
    rw [exitEditor_of_pendingEdit? (pendingEdit?_save hb ht hd hs), hsame, hcursor]

/-- Saving again writes the same file, and finds nothing to commit. -/
private theorem save_again (hb : s.buffer = some b) (ht : Bare b.text) (hs : s.save = .ok s') :
    s'.save = .ok s' := by
  rcases save_cases hs with ⟨_, rfl⟩ | ⟨uri, text, disk, hp, hw, he⟩
  · exact hs
  · obtain ⟨b', d, hb', hd, rfl, rfl⟩ := pendingEdit?_eq_some.mp hp
    cases hb.symm.trans hb'
    obtain ⟨hwrite, hd'⟩ := save_activeDocument hd hp hs
    have hsame : s'.commitEdit (taken b d).text = s' := commitEdit_self (save_settled hd hb hs) hd'
    have hmessage : { s' with workspace.message := some "Saved" } = s' := by
      have hm : s'.workspace.message = some "Saved" := by rw [he]
      rw [← hm]
    have hdisk : s'.disk.write d.uri (taken b d).text = .ok s'.disk := Files.Disk.write_again hwrite
    have hsaved : { s'.commitEdit (taken b d).text with workspace.message := some "Saved" } = s' :=
      (congrArg (fun t : Session => { t with workspace.message := some "Saved" }) hsame).trans hmessage
    unfold save
    rw [pendingEdit?_save hb ht hd hs]
    simp only [hdisk, bind, Except.bind, pure, Except.pure]
    exact congrArg Except.ok hsaved

/-- After any run, saving the buffer twice is saving it once, where no line of the buffer's text ends in a
carriage return, which is so as long as no newline gets into a row. The second save succeeds and changes
nothing, and leaving, by itself or as part of the command that saves and leaves, only closes the buffer. From
the first save on, the file, the document and the document tracked, if it is YAML, have the same text, the one
that the document's line endings give to the buffer; and to any such text, the text that it becomes in the
place of a former one gives the same line endings again. -/
theorem saving_twice_is_saving_once (disk : Files.Disk) (tracker : Tracker)
    (documents : List Document) (extensions : List String)
    (h : (documents.map Document.uri).Nodup) (steps : List Step) :
    (∀ text former, Bare text →
      matchLineEndings text (matchLineEndings text former) = matchLineEndings text former) ∧
    ∀ s b, (started disk tracker documents extensions).run steps = s → s.buffer = some b →
      ((∀ step ∈ steps, step.KeepsRows) → Bare b.text) ∧
      ∀ s', Bare b.text → s.save = .ok s' →
        s'.save = .ok s' ∧
        s'.exitEditor false =
          { s' with workspace.cursor := ⟨b.row, b.column⟩, buffer := none, view := .outline } ∧
        (∀ line, (splitCommand line).1 = "x" → (s.obey line).2 = s'.exitEditor false ∧
          (s'.obey line).2 = s'.exitEditor false) ∧
        ∀ d, s.workspace.activeDocument = some d →
          ∃ text, matchLineEndings b.text d.text = text ∧
            ∀ t, t = s' ∨ t = s'.exitEditor false →
              t.workspace.activeDocument = some { d with text } ∧ t.disk.read d.uri = .ok text ∧
              (d.isYaml = true → t.tracker.document = some { d with text }) ∧
              t.workspace.pending = [] := by
  refine ⟨fun text former ht => matchLineEndings_again ht former, ?_⟩
  intro s b hrun hb
  obtain ⟨hi, _⟩ := run_inStep (started_inStep h disk tracker extensions) steps
  rw [hrun] at hi
  constructor
  · intro hk
    have hrows := (started_rowsLackNewlines disk tracker documents extensions).runAll hk
    rw [hrun] at hrows
    exact (hrows b hb).text_bare
  intro s' ht hs
  have hexit := exitEditor_save_eq hb ht hs
  have hagain := save_again hb ht hs
  have hopen (t : Session) (ho : t.buffer = some b) : t.buffer.isSome = true := by rw [ho]; rfl
  refine ⟨hagain, hexit, ?_, ?_⟩
  · intro line hn
    constructor
    · exact obey_writeAndLeave (hopen s hb) hn hs
    · exact obey_writeAndLeave (hopen s' ((save_buffer hs).trans hb)) hn hagain
  intro d hd
  obtain ⟨hwrite, hd'⟩ := save_activeDocument hd (pendingEdit?_of_buffer hb hd) hs
  have hsettled := save_settled hd hb hs
  have hmirrors : s'.Mirrors := mirrors_of_quiet (save_outcome hi hs).inStep hsettled.pending
  have htracked (hy : d.isYaml = true) : s'.tracker.document = some (taken b d) := by
    rw [hmirrors.document, Workspace.activeYaml, hd']
    exact Option.filter_some_pos hy
  refine ⟨_, rfl, ?_⟩
  rintro t (rfl | rfl)
  · exact ⟨hd', (Files.Disk.write_wrote hwrite).1, htracked, hsettled.pending⟩
  · rw [hexit]
    exact ⟨hd', (Files.Disk.write_wrote hwrite).1, htracked, hsettled.pending⟩

/-- The document of a file whose two lines end in carriage returns. -/
def twoLines : Document := ⟨"a.yaml", "yaml", "k: 1\r\nl: 2\r\n"⟩

/-- The first of the two lines is all that the buffer keeps. -/
def cutDown : List Step :=
  [.own .enterEditor, .own (.edit (Buffer.ofText "k: 2"))]

/-- The line that is left still ends as the two did, after the first save and after the second. -/
theorem saving_twice_keeps_line_ending :
    ([twoLines].map Document.uri).Nodup ∧ (∀ step ∈ cutDown, step.KeepsRows) ∧
      ∃ s', ((started (.ofFolder [] [.mk "a.yaml" (.file (.text twoLines.text))]) {} [twoLines] []).run
        cutDown).save = .ok s' ∧ s'.save = .ok s' ∧ s'.disk.read "a.yaml" = .ok "k: 2\r\n" := by
  have h : ([twoLines].map Document.uri).Nodup := by decide
  have hk : ∀ step ∈ cutDown, step.KeepsRows := by
    simp [cutDown, Step.KeepsRows, Buffer.Lacks.ofText]
  refine ⟨h, hk, ?_⟩
  let s := (started (.ofFolder [] [.mk "a.yaml" (.file (.text twoLines.text))]) {} [twoLines] []).run cutDown
  have hok : s.save.toOption.isSome = true := by decide +kernel
  have hb : s.buffer = some (Buffer.ofText "k: 2") := rfl
  have hd : s.workspace.activeDocument = some twoLines := by decide +kernel
  have htext : matchLineEndings (Buffer.ofText "k: 2").text twoLines.text = "k: 2\r\n" := by
    decide +kernel
  cases hsave : s.save with
  | error e => simp [hsave, Except.toOption] at hok
  | ok s' =>
    obtain ⟨hbare, htwice⟩ := (saving_twice_is_saving_once _ {} _ [] h cutDown).2 s _ rfl hb
    obtain ⟨hagain, _, _, hsame⟩ := htwice s' (hbare hk) hsave
    obtain ⟨text, ht, hstate⟩ := hsame _ hd
    exact ⟨s', rfl, hagain, by rw [← htext, ht]; exact (hstate s' (.inl rfl)).2.1⟩

end YamlOutline.Session
