import YamlOutline.Proofs.Session.Mirror

/-! What a front end can do with a session, and what each of these operations means for tracker and
workspace: it either leaves them alone or ends with the queue delivered. -/

namespace YamlOutline.Session

/-- What is done with a session. The last five stand for fields that a front end sets by itself and
for other programs that write to the disk. -/
inductive Operation where
  | sync
  | dispatch (command : Editor.Command)
  | moveUp
  | moveDown
  | expandOrDescend
  | collapseOrAscend
  | revealSelected
  | openSelected
  | openPath (path : String)
  | closeActive
  | enterEditor
  | save
  | exitEditor (discard : Bool)
  | beginCommand
  | cancelCommand
  | runCommand
  | quitOrBack
  | selectFile (index : Nat)
  | typeCommand (line : String)
  | edit (buffer : Buffer)
  | show (view : View)
  | replaceDisk (disk : Files.Disk)

def Operation.run (s : Session) : Operation → Session
  | .sync => s.sync
  | .dispatch command => s.dispatch command
  | .moveUp => s.moveUp
  | .moveDown => s.moveDown
  | .expandOrDescend => s.expandOrDescend
  | .collapseOrAscend => s.collapseOrAscend
  | .revealSelected => s.revealSelected
  | .openSelected => s.openSelected
  | .openPath path => s.openPath path
  | .closeActive => s.closeActive
  | .enterEditor => s.enterEditor
  | .save =>
    match s.save with
    | .ok s' => s'
    | .error _ => s
  | .exitEditor discard => s.exitEditor discard
  | .beginCommand => s.beginCommand
  | .cancelCommand => s.cancelCommand
  | .runCommand => s.runCommand.2
  | .quitOrBack => s.quitOrBack.2
  | .selectFile index => { s with file := index }
  | .typeCommand line => { s with command := line }
  | .edit buffer => { s with buffer := s.buffer.map fun _ => buffer }
  | .show view => { s with view }
  | .replaceDisk disk => { s with disk }

/-- The session that runs a command line: the line is taken, and the view is the one before. -/
def atCommand (s : Session) : Session :=
  { s with command := "", view := s.previous }

/-- Everything that a command line can do, by its first word and by whether a buffer is open. -/
inductive Obeys (s : Session) (line : String) : Session → Prop where
  | write (s' : Session) (hn : (splitCommand line).1 = "w") (hs : s.save = .ok s')
      (hb : s.buffer.isSome = true) : s.Obeys line s'
  | writeAndLeave (s' : Session) (hn : (splitCommand line).1 = "x") (hs : s.save = .ok s')
      (hb : s.buffer.isSome = true) : s.Obeys line (s'.exitEditor false)
  | writeFails (e : Files.Failure) (hn : (splitCommand line).1 = "w" ∨ (splitCommand line).1 = "x")
      (hs : s.save = .error e) (hb : s.buffer.isSome = true) : s.Obeys line (s.saveFailed e)
  | leave (discard : Bool) (hn : (splitCommand line).1 = if discard then "q!" else "q")
      (hb : s.buffer.isSome = true) : s.Obeys line (s.exitEditor discard)
  | back (hn : (splitCommand line).1 = "q" ∨ (splitCommand line).1 = "q!")
      (hb : s.buffer.isSome = false) : s.Obeys line s.quitOrBack.2
  | outline (hn : (splitCommand line).1 = "outline") : s.Obeys line (s.dispatch .showOutline)
  | close (hn : (splitCommand line).1 = "close") :
      s.Obeys line (if s.buffer.isSome then s.exitEditor true else s).closeActive
  | openPath (path : String) (hn : splitCommand line = ("e", path)) (hp : path.isEmpty = false) :
      s.Obeys line { (s.exitEditor false).openPath path with view := .outline }
  | nothing (message : Option String)
      (hn : (splitCommand line).1 = "e" → (splitCommand line).2.isEmpty = true)
      (hb : (splitCommand line).1 = "w" ∨ (splitCommand line).1 = "x" → s.buffer.isSome = false) :
      s.Obeys line { s with workspace.message := message }

theorem obey_obeys (s : Session) (line : String) : s.Obeys line (s.obey line).2 := by
  unfold obey
  generalize hn : (splitCommand line).1 = name
  generalize ha : (splitCommand line).2 = argument
  have hc : splitCommand line = (name, argument) := Prod.ext hn ha
  simp only [hc]
  by_cases hw : (name == "w" && s.buffer.isSome) = true
  · simp only [Bool.and_eq_true, beq_iff_eq] at hw
    simp only [hw, beq_self_eq_true, Bool.and_self, if_true]
    cases hs : s.save with
    | ok s' => exact .write s' (hn.trans hw.1) hs hw.2
    | error e => exact .writeFails e (.inl (hn.trans hw.1)) hs hw.2
  rw [if_neg hw]
  by_cases hx : (name == "x" && s.buffer.isSome) = true
  · simp only [Bool.and_eq_true, beq_iff_eq] at hx
    simp only [hx, beq_self_eq_true, Bool.and_self, if_true]
    cases hs : s.save with
    | ok s' => exact .writeAndLeave s' (hn.trans hx.1) hs hx.2
    | error e => exact .writeFails e (.inr (hn.trans hx.1)) hs hx.2
  rw [if_neg hx]
  by_cases hq : (name == "q" && s.buffer.isSome) = true
  · rw [if_pos hq]
    simp only [Bool.and_eq_true, beq_iff_eq] at hq
    exact .leave false (hn.trans hq.1) hq.2
  rw [if_neg hq]
  by_cases hd : (name == "q!" && s.buffer.isSome) = true
  · rw [if_pos hd]
    simp only [Bool.and_eq_true, beq_iff_eq] at hd
    exact .leave true (hn.trans hd.1) hd.2
  rw [if_neg hd]
  simp only [Bool.and_eq_true, beq_iff_eq, not_and, Bool.not_eq_true] at hw hx hq hd
  by_cases hb : (name == "q" || name == "q!") = true
  · rw [if_pos hb]
    simp only [Bool.or_eq_true, beq_iff_eq] at hb
    exact .back (by rwa [hn]) (hb.elim hq hd)
  rw [if_neg hb]
  by_cases ho : (name == "outline") = true
  · rw [if_pos ho]
    exact .outline (hn.trans (by simpa using ho))
  rw [if_neg ho]
  by_cases hl : (name == "close") = true
  · rw [if_pos hl]
    exact .close (hn.trans (by simpa using hl))
  rw [if_neg hl]
  by_cases he : (name == "e" && !argument.isEmpty) = true
  · rw [if_pos he]
    simp only [Bool.and_eq_true, beq_iff_eq, Bool.not_eq_true'] at he
    exact .openPath argument (he.1 ▸ hc) he.2
  rw [if_neg he]
  have hno : (splitCommand line).1 = "e" → (splitCommand line).2.isEmpty = true := by
    simpa [hn, ha] using he
  have hsave : (splitCommand line).1 = "w" ∨ (splitCommand line).1 = "x" →
      s.buffer.isSome = false := by
    rw [hn]
    exact fun h => h.elim hw hx
  by_cases hm : name.isEmpty = true
  · rw [if_pos hm]
    exact .nothing s.workspace.message hno hsave
  · rw [if_neg hm]
    exact .nothing _ hno hsave

/-- Neither the tracker nor what is open, focused and queued changed. -/
structure Untouched (s s' : Session) : Prop where
  tracker : s'.tracker = s.tracker
  documents : s'.workspace.documents = s.workspace.documents
  active : s'.workspace.active = s.workspace.active
  pending : s'.workspace.pending = s.workspace.pending
  outlineChanged : s'.workspace.outlineChanged = s.workspace.outlineChanged

/-- Nothing is queued, and the rows were listed since the outline was last built. -/
structure Settled (s : Session) : Prop where
  pending : s.workspace.pending = []
  drawn : s.workspace.outlineChanged = false

/-- What every operation amounts to for a session in step: it stays in step, and if anything was
touched, then the queue was delivered to the end. -/
structure Outcome (s s' : Session) : Prop where
  source : s'.tracker.source = s.tracker.source
  inStep : s'.tracker.InStep s'.workspace
  settled : s'.Settled ∨ s.Untouched s'

variable {s s' s'' : Session}

private theorem Untouched.refl (s : Session) : s.Untouched s := ⟨rfl, rfl, rfl, rfl, rfl⟩

private theorem Untouched.trans (h : s.Untouched s') (h' : s'.Untouched s'') : s.Untouched s'' :=
  ⟨h'.tracker.trans h.tracker, h'.documents.trans h.documents, h'.active.trans h.active,
    h'.pending.trans h.pending, h'.outlineChanged.trans h.outlineChanged⟩

private theorem Untouched.activeDocument (h : s.Untouched s') :
    s'.workspace.activeDocument = s.workspace.activeDocument := by
  simp only [Workspace.activeDocument, h.documents, h.active]

theorem Untouched.settled (h : s.Untouched s') (hs : s.Settled) : s'.Settled :=
  ⟨h.pending.trans hs.pending, h.outlineChanged.trans hs.drawn⟩

theorem Untouched.outcome (h : s.Untouched s') (hs : s.tracker.InStep s.workspace) :
    s.Outcome s' where
  source := by rw [h.tracker]
  inStep := by
    refine ⟨⟨?_, ?_⟩, ?_, ?_⟩
    · rw [h.documents]
      exact hs.sound.distinct
    · rw [h.documents, h.active]
      exact hs.sound.inRange
    · rw [h.tracker]
      exact hs.upToDate
    · rw [h.tracker, h.pending]
      exact hs.leads.congr h.activeDocument
  settled := .inr h

private theorem Outcome.trans (h : s.Outcome s') (h' : s'.Outcome s'') : s.Outcome s'' where
  source := h'.source.trans h.source
  inStep := h'.inStep
  settled := by
    rcases h'.settled with hd | hu
    · exact .inl hd
    · rcases h.settled with hd | hv
      · exact .inl (hu.settled hd)
      · exact .inr (hv.trans hu)

theorem Outcome.keeps_settled (h : s.Outcome s') (hs : s.Settled) : s'.Settled :=
  h.settled.elim id fun hu => hu.settled hs

theorem sync_settled (s : Session) : s.sync.Settled :=
  ⟨s.sync_pending, by rw [sync_workspace]⟩

theorem Settled.sync_eq (h : s.Settled) : s.sync = s := by
  have hd : s.drain = s := deliverAll_of_pending_nil _ h.pending
  have hw : { s.workspace with outlineChanged := false } = s.workspace := by rw [← h.drawn]
  rw [Session.sync_eq, hd, h.drawn, if_neg Bool.false_ne_true]
  exact congrArg (fun workspace => { s with workspace }) hw

/-- Operations that end with a delivery, whatever they did to the workspace before. -/
private theorem outcome_sync (hs : s'.tracker.source = s.tracker.source)
    (h : s'.tracker.InStep s'.workspace) : s.Outcome s'.sync where
  source := by rw [sync_tracker, s'.drain_delivers.source, hs]
  inStep := sync_inStep h
  settled := .inl s'.sync_settled

theorem Outcome.mirrors_or_untouched (h : s.Outcome s') : s'.Mirrors ∨ s.Untouched s' :=
  h.settled.imp (fun hd => mirrors_of_quiet h.inStep hd.pending) id

end YamlOutline.Session

namespace YamlOutline.Tracker.InStep
open YamlOutline.Workspace
variable {t : Tracker} {w w' : Workspace}

theorem announced (h : t.InStep w) (hw : w.Announced w') (hs : w'.Sound) : t.InStep w' :=
  ⟨hs, h.upToDate, h.leads.announced hw⟩

private theorem noted (h : t.InStep w) (notes : List Log.Record) : t.InStep { w with notes } :=
  h.announced (.quiet rfl rfl) ⟨h.sound.distinct, h.sound.inRange⟩

theorem commit (h : t.InStep w) (text : String) : t.InStep (w.commit text) :=
  h.announced (w.commit_announced text) (h.sound.commit text)

/-- Looking up the active document puts the tracker where the queue would lead it. -/
private theorem follow (h : t.InStep w) (disk : Files.Disk) :
    (t.follow (Workspace.editor disk) w).1.InStep (t.follow (Workspace.editor disk) w).2 := by
  have hr := t.follow_redrawn disk w
  have ha : (t.follow (Workspace.editor disk) w).2.activeDocument = w.activeDocument := by
    obtain ⟨_, _, he⟩ := hr
    rw [he]
    rfl
  refine ⟨hr.grows.sound h.sound, ?_, ?_⟩
  · rw [follow_fst]
    exact boundTo_upToDate ..
  · rw [follow_fst, boundTo_document, hr.pending]
    change Leads _ w.activeYaml w.pending
    have hl := h.leads
    generalize w.pending = queued at hl
    refine Leads.congr ?_ ha
    cases hl with
    | there _ => exact .there rfl
    | changes _ hn _ tell => exact .changes _ hn rfl tell
    | follows es x rest hx tell => exact .follows es x rest hx tell

private theorem revealSpan (h : t.InStep w) (disk : Files.Disk) (span : Nat × Nat)
    (uri : Option String) :
    t.InStep (Tracker.revealSpan (Workspace.editor disk) span uri w) := by
  unfold Tracker.revealSpan
  cases uri with
  | none =>
    cases ha : w.activeDocument with
    | none =>
      simp only [Workspace.editor, ha]
      exact h.noted _
    | some d =>
      simp only [Workspace.editor, ha]
      exact (h.noted _).announced (reveal_announced ..) ((h.noted _).sound.reveal ..)
  | some uri =>
    have ho := h.announced (w.openDocument_announced disk uri) (h.sound.openDocument disk uri)
    cases ha : (w.openDocument disk uri).1 with
    | none =>
      simp only [Workspace.editor, ha]
      exact ho.noted _
    | some d =>
      simp only [Workspace.editor, ha]
      exact (ho.noted _).announced (reveal_announced ..) ((ho.noted _).sound.reveal ..)

theorem execute (h : t.InStep w) (disk : Files.Disk) (command : Editor.Command) :
    (t.execute (Workspace.editor disk) command w).1.InStep
      (t.execute (Workspace.editor disk) command w).2 := by
  cases command with
  | showOutline => exact h.follow disk
  | reveal span uri => exact h.revealSpan disk span uri

end YamlOutline.Tracker.InStep

namespace YamlOutline.Session
variable {s s' s'' : Session}

private theorem dispatch_outcome (h : s.tracker.InStep s.workspace) (command : Editor.Command) :
    s.Outcome (s.dispatch command) := by
  refine outcome_sync ?_ (h.execute s.disk command)
  cases command with
  | showOutline =>
    change (s.tracker.follow (Workspace.editor s.disk) s.workspace).1.source = _
    rw [Tracker.follow_fst, Tracker.boundTo_source]
  | reveal => rfl

private theorem openSelected_outcome (h : s.tracker.InStep s.workspace) :
    s.Outcome s.openSelected := by
  have ho : s.Outcome { s.resetSelection with workspace := s.workspace.focus s.file }.sync :=
    outcome_sync rfl (h.announced (s.workspace.focus_announced s.file) (h.sound.focus s.file))
  exact ho.trans (Untouched.outcome ⟨rfl, rfl, rfl, rfl, rfl⟩ ho.inStep)

/-- Opening resets the selection where there is a document to move to. -/
theorem openPath_cases (s : Session) (path : String) :
    (s.workspace.openFile s.disk path).1 = none ∧
        s.openPath path = { s with workspace := (s.workspace.openFile s.disk path).2 }.sync ∨
      ∃ index isMulti, (s.workspace.openFile s.disk path).1 = some index ∧
        s.openPath path =
          { s.resetSelection with
            workspace := (s.workspace.openFile s.disk path).2, file := index, isMulti }.sync := by
  unfold openPath
  rcases s.workspace.openFile s.disk path with ⟨index, w⟩
  cases index with
  | none => exact .inl ⟨rfl, rfl⟩
  | some index => exact .inr ⟨index, _, rfl, rfl⟩

private theorem openPath_outcome (h : s.tracker.InStep s.workspace) (path : String) :
    s.Outcome (s.openPath path) := by
  have hw := h.announced (s.workspace.openFile_announced s.disk path) (h.sound.openFile s.disk path)
  rcases s.openPath_cases path with ⟨_, he⟩ | ⟨index, isMulti, _, he⟩ <;> rw [he]
  · exact outcome_sync rfl hw
  · exact outcome_sync rfl hw

private theorem closeActive_outcome (h : s.tracker.InStep s.workspace) : s.Outcome s.closeActive :=
  outcome_sync rfl (h.announced s.workspace.closeActive_announced h.sound.closeActive)

private theorem commitEdit_outcome (h : s.tracker.InStep s.workspace) (text : String) :
    s.Outcome (s.commitEdit text) :=
  outcome_sync rfl (h.commit text)

theorem pendingEdit?_eq_some {uri text : String} :
    s.pendingEdit? = some (uri, text) ↔ ∃ b d, s.buffer = some b ∧ s.workspace.activeDocument = some d ∧
      d.uri = uri ∧ matchLineEndings b.text d.text = text := by
  simp only [pendingEdit?]
  cases s.buffer <;> cases s.workspace.activeDocument <;> simp

/-- Where the cursor of the workspace goes when the editor is left. -/
def leavingCursor (s : Session) : Position :=
  match s.buffer with
  | some b => ⟨b.row, b.column⟩
  | none => s.workspace.cursor

theorem commitEdit_buffer (s : Session) (text : String) : (s.commitEdit text).buffer = s.buffer := by
  rw [commitEdit, sync_frame]

/-- Leaving the editor closes the buffer, after the edit was committed if it is wanted. -/
theorem exitEditor_cases (s : Session) (discard : Bool) :
    (discard = true ∨ s.pendingEdit? = none) ∧
        s.exitEditor discard =
          { s with workspace.cursor := s.leavingCursor, buffer := none, view := .outline } ∨
      discard = false ∧ ∃ uri text, s.pendingEdit? = some (uri, text) ∧
        s.exitEditor discard =
          { s.commitEdit text with
            workspace.cursor := s.leavingCursor, buffer := none, view := .outline } := by
  unfold exitEditor leavingCursor
  cases hp : s.pendingEdit? with
  | none =>
    refine .inl ⟨.inr rfl, ?_⟩
    cases hb : s.buffer <;> simp only [hb]
  | some edit =>
    obtain ⟨uri, text⟩ := edit
    obtain ⟨b, d, hb, _⟩ := pendingEdit?_eq_some.mp hp
    cases discard with
    | true => exact .inl ⟨.inl rfl, by simp only [hb, if_true]⟩
    | false =>
      refine .inr ⟨rfl, uri, text, rfl, ?_⟩
      simp only [Bool.false_eq_true, if_false, commitEdit_buffer, hb]

theorem exitEditor_of_pendingEdit? {uri text : String} (hp : s.pendingEdit? = some (uri, text)) :
    s.exitEditor false =
      { s.commitEdit text with
        workspace.cursor := s.leavingCursor, buffer := none, view := .outline } := by
  rcases s.exitEditor_cases false with ⟨hn, _⟩ | ⟨_, uri', text', hp', he⟩
  · simp [hp] at hn
  · cases hp.symm.trans hp'
    exact he

theorem exitEditor_outcome (h : s.tracker.InStep s.workspace) (discard : Bool) :
    s.Outcome (s.exitEditor discard) := by
  rcases s.exitEditor_cases discard with ⟨_, he⟩ | ⟨_, uri, text, _, he⟩ <;> rw [he]
  · exact Untouched.outcome ⟨rfl, rfl, rfl, rfl, rfl⟩ h
  · have hc := commitEdit_outcome h text
    exact hc.trans (Untouched.outcome ⟨rfl, rfl, rfl, rfl, rfl⟩ hc.inStep)

/-- Saving does nothing without an edit, and else writes the file before it commits. -/
theorem save_cases (hs : s.save = .ok s') :
    s.pendingEdit? = none ∧ s' = s ∨ ∃ uri text disk, s.pendingEdit? = some (uri, text) ∧
      s.disk.write uri text = .ok disk ∧
      s' = { { s with disk }.commitEdit text with workspace.message := some "Saved" } := by
  unfold save at hs
  cases hp : s.pendingEdit? with
  | none =>
    simp only [hp, Except.ok.injEq] at hs
    exact .inl ⟨rfl, hs.symm⟩
  | some edit =>
    obtain ⟨uri, text⟩ := edit
    simp only [hp] at hs
    cases hw : s.disk.write uri text with
    | error e => simp [hw, bind, Except.bind] at hs
    | ok disk =>
      simp only [hw, bind, Except.bind, pure, Except.pure, Except.ok.injEq] at hs
      exact .inr ⟨uri, text, disk, rfl, hw, hs.symm⟩

theorem save_of_pendingEdit? {uri text : String} (hp : s.pendingEdit? = some (uri, text))
    (hs : s.save = .ok s') : ∃ disk, s.disk.write uri text = .ok disk ∧
      s' = { { s with disk }.commitEdit text with workspace.message := some "Saved" } := by
  rcases save_cases hs with ⟨hn, _⟩ | ⟨uri', text', disk, hp', hw, he⟩
  · cases hp.symm.trans hn
  · cases hp.symm.trans hp'
    exact ⟨disk, hw, he⟩

theorem save_outcome (h : s.tracker.InStep s.workspace) (hs : s.save = .ok s') : s.Outcome s' := by
  rcases save_cases hs with ⟨_, rfl⟩ | ⟨uri, text, disk, _, _, rfl⟩
  · exact (Untouched.refl s').outcome h
  · have hc : s.Outcome ({ s with disk }.commitEdit text) := outcome_sync rfl (h.commit text)
    exact hc.trans (Untouched.outcome ⟨rfl, rfl, rfl, rfl, rfl⟩ hc.inStep)

private theorem quitOrBack_untouched (s : Session) : s.Untouched s.quitOrBack.2 := by
  unfold quitOrBack
  split <;> exact ⟨rfl, rfl, rfl, rfl, rfl⟩

private theorem obey_outcome (h : s.tracker.InStep s.workspace) (line : String) :
    s.Outcome (s.obey line).2 := by
  have ho := s.obey_obeys line
  generalize (s.obey line).2 = r at ho
  cases ho with
  | write s' _ hs => exact save_outcome h hs
  | writeAndLeave s' _ hs =>
    have hw := save_outcome h hs
    exact hw.trans (exitEditor_outcome hw.inStep false)
  | writeFails e _ _ => exact Untouched.outcome ⟨rfl, rfl, rfl, rfl, rfl⟩ h
  | leave discard _ => exact exitEditor_outcome h discard
  | back _ => exact s.quitOrBack_untouched.outcome h
  | outline _ => exact dispatch_outcome h .showOutline
  | close _ =>
    split
    · have hx := exitEditor_outcome h true
      exact hx.trans (closeActive_outcome hx.inStep)
    · exact closeActive_outcome h
  | openPath path _ _ =>
    have hx := exitEditor_outcome h false
    have ho := hx.trans (openPath_outcome hx.inStep path)
    exact ho.trans (Untouched.outcome ⟨rfl, rfl, rfl, rfl, rfl⟩ ho.inStep)
  | nothing message _ => exact Untouched.outcome ⟨rfl, rfl, rfl, rfl, rfl⟩ h

/-- Nothing differs but the rows that are listed and the selection among them. -/
def Browses (s s' : Session) : Prop :=
  ∃ row rows expanded, s' = { s with row, rows, expanded }

theorem moveDown_browses (s : Session) : s.Browses s.moveDown := by
  unfold moveDown
  split
  all_goals exact ⟨_, _, _, rfl⟩

theorem expandOrDescend_browses (s : Session) : s.Browses s.expandOrDescend := by
  unfold expandOrDescend
  repeat' split
  · exact ⟨_, _, _, rfl⟩
  · exact ⟨_, _, _, rfl⟩
  · exact s.moveDown_browses
  · exact ⟨_, _, _, rfl⟩

theorem collapseOrAscend_browses (s : Session) : s.Browses s.collapseOrAscend := by
  unfold collapseOrAscend
  repeat' split
  all_goals exact ⟨_, _, _, rfl⟩

namespace Browses

private theorem untouched (h : s.Browses s') : s.Untouched s' := by
  obtain ⟨row, rows, expanded, rfl⟩ := h
  exact ⟨rfl, rfl, rfl, rfl, rfl⟩

theorem workspace (h : s.Browses s') : s'.workspace = s.workspace := by
  obtain ⟨row, rows, expanded, rfl⟩ := h
  rfl

theorem buffer (h : s.Browses s') : s'.buffer = s.buffer := by
  obtain ⟨row, rows, expanded, rfl⟩ := h
  rfl

theorem disk (h : s.Browses s') : s'.disk = s.disk := by
  obtain ⟨row, rows, expanded, rfl⟩ := h
  rfl

end Browses

/-- The step lemma: every operation leaves a session in step in step. -/
theorem Operation.run_outcome (h : s.tracker.InStep s.workspace) (op : Operation) :
    s.Outcome (op.run s) := by
  cases op with
  | sync => exact outcome_sync rfl h
  | dispatch command => exact dispatch_outcome h command
  | moveUp => exact Untouched.outcome ⟨rfl, rfl, rfl, rfl, rfl⟩ h
  | moveDown => exact s.moveDown_browses.untouched.outcome h
  | expandOrDescend => exact s.expandOrDescend_browses.untouched.outcome h
  | collapseOrAscend => exact s.collapseOrAscend_browses.untouched.outcome h
  | revealSelected =>
    simp only [run, Session.revealSelected]
    split
    · exact (Untouched.refl s).outcome h
    · exact dispatch_outcome h _
  | openSelected => exact openSelected_outcome h
  | openPath path => exact openPath_outcome h path
  | closeActive => exact closeActive_outcome h
  | enterEditor =>
    refine Untouched.outcome ?_ h
    simp only [run, Session.enterEditor]
    split <;> exact ⟨rfl, rfl, rfl, rfl, rfl⟩
  | save =>
    simp only [run]
    split
    · rename_i s' hs
      exact save_outcome h hs
    · exact (Untouched.refl s).outcome h
  | exitEditor discard => exact exitEditor_outcome h discard
  | runCommand =>
    have hu : s.Untouched s.atCommand := ⟨rfl, rfl, rfl, rfl, rfl⟩
    have ho := hu.outcome h
    exact ho.trans (obey_outcome ho.inStep s.command)
  | quitOrBack => exact s.quitOrBack_untouched.outcome h
  | beginCommand | cancelCommand | selectFile | typeCommand | edit | «show» | replaceDisk =>
    exact Untouched.outcome ⟨rfl, rfl, rfl, rfl, rfl⟩ h

end YamlOutline.Session
