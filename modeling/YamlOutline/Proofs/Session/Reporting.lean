import YamlOutline.Proofs.Session.Keeping
import YamlOutline.Proofs.Session.Selection
import YamlOutline.Proofs.Tracker.Callbacks

/-! What the user is told of a malformed text. Whenever the tracker builds an outline and cannot, the
error becomes the message and goes to the log. A commit of another text always ends that way, so
whoever leaves the editor reads the error. Saving puts a message of its own in its place. -/

namespace YamlOutline.Session
open Editor (Event)
variable {s s' : Session} {d : Document} {b : Buffer} {e : ParseError} {text uri : String}

/-- What the log has about a malformed document. -/
def complaintNote (d : Document) (e : ParseError) : Log.Record :=
  ⟨.warn, .tracker, d.uri ++ ": " ++ e.message⟩

/-- Nothing is kept from the user: if the document held is malformed, the error is the message that
is shown, and it is in the log. -/
def Told (s : Session) : Prop :=
  ∀ d e, s.tracker.document = some d → parse d.text = .error e →
    s.workspace.message = some e.message ∧ complaintNote d e ∈ s.workspace.notes

/-! ### Building an outline -/

private theorem Told.congr (h : s.Told) (ht : s'.tracker = s.tracker)
    (hm : s'.workspace.message = s.workspace.message)
    (hn : s'.workspace.notes = s.workspace.notes) : s'.Told := by
  intro d e hd hp
  rw [hm, hn]
  exact h d e (ht ▸ hd) hp

/-- The user is told of the document that an outline was built for last. -/
private theorem told_of_refresh {disk : Files.Disk} {t : Tracker} {w : Workspace}
    (h : (s.tracker, s.workspace) = t.refresh (Workspace.editor disk) w) : s.Told := by
  intro d e hd hp
  obtain ⟨ht, hw⟩ := Prod.ext_iff.mp h
  simp only at ht hw
  have hdoc : t.document = some d := by
    rw [ht, Tracker.refresh_fst] at hd
    exact hd
  have hbuild : t.build d = .error e := (Tracker.build_error_iff t d e).mpr hp
  rw [hw]
  simp [Tracker.refresh, hdoc, hbuild, Workspace.editor, complaintNote]

/-- The step lemma: an event is passed over, or the user is told. -/
private theorem handle_told (s : Session) (event : Event) :
    s.handle event = s ∨ (s.handle event).Told := by
  rcases Tracker.handle_refreshes (Workspace.editor s.disk) event s.tracker s.workspace with
    he | ⟨t, w, he⟩
  · refine .inl ?_
    simp only [handle, track, he]
  · exact .inr (told_of_refresh he)

private theorem handle_changed_told (h : s.tracker.isBoundTo uri = true) :
    (s.handle (.changed uri)).Told := by
  obtain ⟨t, w, he⟩ := Tracker.handle_changed_refreshes h (Workspace.editor s.disk) s.workspace
  exact told_of_refresh he

private theorem handle_changed_of_not_bound (h : ¬ s.tracker.isBoundTo uri = true) :
    s.handle (.changed uri) = s := by
  simp only [handle, track, Tracker.handle, if_neg h]

/-- The run lemma: a user who was told is told after any events. -/
private theorem Told.foldl_handle (h : s.Told) (events : List Event) :
    (events.foldl handle s).Told := by
  induction events generalizing s with
  | nil => exact h
  | cons x xs ih =>
    rw [List.foldl_cons]
    rcases s.handle_told x with he | ht
    · rw [he]
      exact ih h
    · exact ih ht

private theorem Told.deliver (h : s.Told) : s.deliver.Told := by
  have hd : s.dequeued.Told := h.congr rfl rfl rfl
  rw [deliver_eq]
  exact hd.foldl_handle _

/-- If the queue ends with a change of the document that is held in the end, the user is told. -/
private theorem deliver_told_of_changed {events : List Event}
    (hp : s.workspace.pending = events ++ [.changed uri])
    (hb : s.deliver.tracker.isBoundTo uri = true) : s.deliver.Told := by
  rw [deliver_eq, hp, List.foldl_append, List.foldl_cons, List.foldl_nil] at hb ⊢
  generalize events.foldl handle s.dequeued = r at hb ⊢
  -- The last event rebinds no tracker to another name, so the name was held before it already.
  by_cases hr : r.tracker.isBoundTo uri = true
  · exact handle_changed_told hr
  · rw [handle_changed_of_not_bound hr] at hb
    exact absurd hb hr

private theorem sync_told_of_changed {events : List Event}
    (hp : s.workspace.pending = events ++ [.changed uri])
    (hb : s.deliver.tracker.isBoundTo uri = true) : s.sync.Told := by
  have hdrain : s.drain.Told := by
    have hdeliver := deliver_told_of_changed hp hb
    rcases s.drain_cases with ⟨hn, _⟩ | ⟨_, he⟩ | ⟨_, he⟩
    · simp [hp] at hn
    · exact he ▸ hdeliver
    · exact he ▸ hdeliver.deliver
  exact hdrain.congr s.sync_tracker (by rw [sync_workspace]) (by rw [sync_workspace])

/-! ### Committing a text -/

/-- A commit of another text tells the user of it, however much was queued before. -/
private theorem commitEdit_told (h : s.tracker.InStep s.workspace)
    (hd : s.workspace.activeDocument = some d) (hy : d.isYaml = true) (hne : text ≠ d.text) :
    (s.commitEdit text).Told := by
  have hyaml : (s.workspace.commit text).activeYaml = some { d with text } := by
    rw [Workspace.activeYaml, Workspace.activeDocument_commit, hd]
    exact Option.filter_some_pos hy
  refine sync_told_of_changed (Workspace.commit_pending hd hne) ?_
  rw [Tracker.isBoundTo, deliver_document (h.commit text), hyaml]
  simp

private theorem commitEdit_mirrors (h : s.tracker.InStep s.workspace) (text : String) :
    (s.commitEdit text).Mirrors :=
  sync_mirrors (h.commit text)

/-- A commit of the same text to a session with nothing queued does nothing. -/
theorem commitEdit_self (h : s.Settled) (hd : s.workspace.activeDocument = some d) :
    s.commitEdit d.text = s := by
  rw [commitEdit, Workspace.commit_self hd]
  exact h.sync_eq

/-- The session holds a malformed document: the outline is empty, and the error is in the log. -/
structure Rejects (s : Session) (d : Document) (e : ParseError) : Prop where
  document : s.tracker.document = some d
  roots : s.tracker.roots = []
  noted : complaintNote d e ∈ s.workspace.notes

private theorem Rejects.congr (h : s.Rejects d e) (ht : s'.tracker = s.tracker)
    (hn : s'.workspace.notes = s.workspace.notes) : s'.Rejects d e :=
  ⟨ht ▸ h.document, ht ▸ h.roots, hn ▸ h.noted⟩

private theorem commitEdit_rejects (h : s.tracker.InStep s.workspace)
    (hd : s.workspace.activeDocument = some d) (hy : d.isYaml = true) (hne : text ≠ d.text)
    (hp : parse text = .error e) :
    (s.commitEdit text).Rejects { d with text } e ∧
      (s.commitEdit text).workspace.message = some e.message := by
  have hyaml : (s.commitEdit text).workspace.activeYaml = some { d with text } := by
    rw [Workspace.activeYaml, commitEdit_activeDocument hd]
    exact Option.filter_some_pos hy
  obtain ⟨_, hdocument, hroots⟩ := commitEdit_mirrors h text
  rw [hyaml] at hdocument hroots
  obtain ⟨hm, hn⟩ := commitEdit_told h hd hy hne _ e hdocument hp
  have hbuild := (Tracker.build_error_iff (s.commitEdit text).tracker { d with text } e).mpr hp
  simp only [Tracker.outlineFor, hbuild] at hroots
  exact ⟨⟨hdocument, hroots, hn⟩, hm⟩

/-! ### Leaving and saving -/

/-- An open buffer for a document of which it makes another text, and a malformed one. -/
structure Spoils (s : Session) (b : Buffer) (d : Document) (e : ParseError) : Prop where
  buffer : s.buffer = some b
  active : s.workspace.activeDocument = some d
  isYaml : d.isYaml = true
  differs : (taken b d).text ≠ d.text
  malformed : parse (taken b d).text = .error e

/-- Leaving shows the error. -/
private theorem Spoils.exitEditor (hs : s.Spoils b d e) (h : s.tracker.InStep s.workspace) :
    (s.exitEditor false).Rejects (taken b d) e ∧
      (s.exitEditor false).workspace.message = some e.message := by
  obtain ⟨hr, hm⟩ := commitEdit_rejects h hs.active hs.isYaml hs.differs hs.malformed
  rw [exitEditor_of_pendingEdit? (pendingEdit?_of_buffer hs.buffer hs.active)]
  exact ⟨hr.congr rfl rfl, hm⟩

/-- Saving does not. -/
private theorem Spoils.save (hs : s.Spoils b d e) (h : s.tracker.InStep s.workspace)
    (hsave : s.save = .ok s') :
    s'.Rejects (taken b d) e ∧ s'.workspace.message = some "Saved" ∧ s'.Settled := by
  obtain ⟨disk, _, rfl⟩ := save_of_pendingEdit? (pendingEdit?_of_buffer hs.buffer hs.active) hsave
  obtain ⟨hr, _⟩ := commitEdit_rejects (s := { s with disk }) h hs.active hs.isYaml hs.differs
    hs.malformed
  obtain ⟨hpending, hdrawn⟩ :=
    sync_settled { s with disk, workspace := s.workspace.commit (taken b d).text }
  exact ⟨hr.congr rfl rfl, rfl, hpending, hdrawn⟩

/-- Leaving after saving leaves the message alone, since there is nothing new to commit. -/
private theorem Spoils.exitEditor_save (hs : s.Spoils b d e) (h : s.tracker.InStep s.workspace)
    (hl : b.Lacks '\n') (hsave : s.save = .ok s') :
    (s'.exitEditor false).Rejects (taken b d) e ∧
      (s'.exitEditor false).workspace.message = some "Saved" := by
  obtain ⟨hr, hm, hsettled⟩ := hs.save h hsave
  obtain ⟨_, hd'⟩ := save_activeDocument hs.active (pendingEdit?_of_buffer hs.buffer hs.active) hsave
  have hedit := pendingEdit?_save hs.buffer hl.text_bare hs.active hsave
  rw [exitEditor_of_pendingEdit? hedit, commitEdit_self hsettled hd']
  exact ⟨hr.congr rfl rfl, hm⟩

/-- A way to commit the buffer, by a call or by the command line. `saved` tells whether the file is
written too. -/
inductive Commits (s : Session) : (saved : Bool) → Session → Prop where
  | leave : s.Commits false (s.exitEditor false)
  | save (s' : Session) (hs : s.save = .ok s') : s.Commits true s'
  | leaveCommand (hn : (splitCommand s.command).1 = "q") : s.Commits false s.runCommand.2
  | writeCommand (hn : (splitCommand s.command).1 = "w") (s' : Session)
      (hs : s.atCommand.save = .ok s') : s.Commits true s.runCommand.2
  /-- A row of the buffer is one line, with no newline in it. -/
  | writeAndLeaveCommand (hn : (splitCommand s.command).1 = "x") (s' : Session)
      (hs : s.atCommand.save = .ok s') (hl : ∀ b, s.buffer = some b → b.Lacks '\n') :
      s.Commits true s.runCommand.2

/-- What the commands that commit do while a buffer is open. -/
private theorem obey_leave {line : String} (hb : s.buffer.isSome = true)
    (hn : (splitCommand line).1 = "q") : (s.obey line).2 = s.exitEditor false := by
  simp [obey, hn, hb]

private theorem obey_write {line : String} (hb : s.buffer.isSome = true)
    (hn : (splitCommand line).1 = "w") (hs : s.save = .ok s') : (s.obey line).2 = s' := by
  simp [obey, hn, hb, hs]

theorem obey_writeAndLeave {line : String} (hb : s.buffer.isSome = true)
    (hn : (splitCommand line).1 = "x") (hs : s.save = .ok s') :
    (s.obey line).2 = s'.exitEditor false := by
  simp [obey, hn, hb, hs]

/-- Whichever way a malformed text is committed, the outline is empty and the error is in the log.
What the user reads is the error unless the file was saved, and "Saved" if it was. -/
private theorem Spoils.commits (hs : s.Spoils b d e) (h : s.tracker.InStep s.workspace)
    {saved : Bool}
    (hc : s.Commits saved s') :
    s'.Rejects (taken b d) e ∧
      s'.workspace.message = some (if saved then "Saved" else e.message) := by
  have hs' : s.atCommand.Spoils b d e :=
    ⟨hs.buffer, hs.active, hs.isYaml, hs.differs, hs.malformed⟩
  have hb : s.atCommand.buffer.isSome = true := Option.isSome_iff_exists.mpr ⟨b, hs.buffer⟩
  cases hc with
  | leave => exact hs.exitEditor h
  | save s' hsave =>
    obtain ⟨hr, hm, _⟩ := hs.save h hsave
    exact ⟨hr, hm⟩
  | leaveCommand hn =>
    have hrun : s.runCommand.2 = s.atCommand.exitEditor false := obey_leave hb hn
    rw [hrun]
    exact hs'.exitEditor h
  | writeCommand hn s' hsave =>
    have hrun : s.runCommand.2 = s' := obey_write hb hn hsave
    obtain ⟨hr, hm, _⟩ := hs'.save h hsave
    rw [hrun]
    exact ⟨hr, hm⟩
  | writeAndLeaveCommand hn s' hsave hl =>
    have hrun : s.runCommand.2 = s'.exitEditor false := obey_writeAndLeave hb hn hsave
    rw [hrun]
    exact hs'.exitEditor_save h (hl b hs.buffer) hsave

/-! ### The rows that are shown -/

private theorem Listed.rows_eq_nil (h : s.Listed) (hr : s.tracker.roots = []) : s.rows = [] := by
  obtain ⟨expanded, hrows⟩ := h
  rw [hrows, hr]
  rfl

private theorem Commits.listed {saved : Bool} (hc : s.Commits saved s') (h : s.Listed) :
    s'.Listed := by
  have ha : s.atCommand.Listed := h
  cases hc with
  | leave => exact h.exitEditor false
  | save s' hs => exact h.save hs
  | leaveCommand | writeCommand | writeAndLeaveCommand => exact ha.obey s.command

private theorem Step.run_listed (h : s.Listed) (step : Step) : (step.run s).Listed := by
  cases step with
  | own op => exact op.run_listed h
  | workspace op => exact h

private theorem run_listed (h : s.Listed) (steps : List Step) : (s.run steps).Listed := by
  induction steps generalizing s with
  | nil => exact h
  | cons step steps ih => exact ih (step.run_listed h)

private theorem started_listed (disk : Files.Disk) (tracker : Tracker) (documents : List Document)
    (extensions : List String) : (started disk tracker documents extensions).Listed :=
  (sync_fresh_of_changed (Tracker.follow_redrawn ..).outlineChanged).listed

/-! ### Saved or told -/

private theorem message_ne_saved (e : ParseError) : e.message ≠ "Saved" := by
  obtain ⟨rest, he⟩ : ∃ rest, e.message = "Failed to parse YAML: " ++ rest := by
    unfold ParseError.message
    simp only [String.append_assoc]
    exact ⟨_, rfl⟩
  intro h
  have hfirst := congrArg (·.toList.head?) (he.symm.trans h)
  simp at hfirst

instance (text : String) (e : ParseError) : Decidable (parse text = .error e) :=
  decidable_of_iff ((match parse text with | .ok _ => none | .error e' => some e') = some e) <| by
    cases parse text <;> simp

/-- After any run, a malformed text that the buffer commits is reported exactly if it is not saved at
the same time. Either way the outline is empty, no row is shown, and the log has the error. -/
theorem malformed_reported_iff_not_saved (disk : Files.Disk) (tracker : Tracker)
    (documents : List Document) (extensions : List String)
    (h : (documents.map Document.uri).Nodup) (steps : List Step) {s : Session}
    (hrun : (started disk tracker documents extensions).run steps = s) (hs : s.Spoils b d e)
    {saved : Bool} (hc : s.Commits saved s') :
    s'.Rejects (taken b d) e ∧ s'.rows = [] ∧
      (s'.workspace.message = some e.message ↔ saved = false) ∧
      (s'.workspace.message = some "Saved" ↔ saved = true) := by
  obtain ⟨hi, _⟩ := run_inStep (started_inStep h disk tracker extensions) steps
  have hlisted := run_listed (started_listed disk tracker documents extensions) steps
  rw [hrun] at hi hlisted
  obtain ⟨hr, hm⟩ := hs.commits hi hc
  refine ⟨hr, (hc.listed hlisted).rows_eq_nil hr.roots, ?_⟩
  rw [hm]
  cases saved with
  | false => simp [message_ne_saved]
  | true => simp [(message_ne_saved e).symm]

/-- A session in which a bracket was opened and not closed again. -/
def unclosed : Session :=
  (started (.ofFolder [] [.mk "a.yaml" (.file (.text "a: 1"))]) {} [⟨"a.yaml", "yaml", "a: 1"⟩] []).run
    [.own .enterEditor, .own (.edit (Buffer.ofText "a: [1, 2"))]

private theorem unclosed_spoils :
    unclosed.Spoils (Buffer.ofText "a: [1, 2") ⟨"a.yaml", "yaml", "a: 1"⟩
      ⟨.unexpected "a: [1, 2", 1, 1⟩ where
  buffer := rfl
  active := by decide
  isYaml := rfl
  differs := by decide +kernel
  malformed := by decide +kernel

/-- Leaving the editor there reports the error. -/
theorem malformed_reported_on_leaving :
    ([⟨"a.yaml", "yaml", "a: 1"⟩].map Document.uri).Nodup ∧ ∃ b d e s', unclosed.Spoils b d e ∧
      unclosed.Commits false s' ∧ s'.tracker.roots = [] ∧
      s'.workspace.message = some e.message := by
  have h : ([⟨"a.yaml", "yaml", "a: 1"⟩].map Document.uri).Nodup := by decide
  obtain ⟨hr, _, hm, _⟩ :=
    malformed_reported_iff_not_saved _ {} _ [] h _ (s := unclosed) rfl unclosed_spoils .leave
  exact ⟨h, _, _, _, _, unclosed_spoils, .leave, hr.roots, hm.mpr rfl⟩

/-- Saving does not. -/
theorem malformed_hidden_by_saving :
    ∃ b d e s', unclosed.Spoils b d e ∧ unclosed.save = .ok s' ∧
      s'.workspace.message = some "Saved" ∧ s'.workspace.message ≠ some e.message := by
  have hok : (unclosed.save.map (·.workspace.message)).toOption = some (some "Saved") := by
    decide +kernel
  cases hsave : unclosed.save with
  | error e => simp [hsave, Except.map, Except.toOption] at hok
  | ok s' =>
    simp only [hsave, Except.map, Except.toOption, Option.some.injEq] at hok
    exact ⟨_, _, _, s', unclosed_spoils, rfl, hok, by rw [hok]; decide +kernel⟩

end YamlOutline.Session
