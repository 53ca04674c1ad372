import YamlOutline.Proofs.Outline.Rows
import YamlOutline.Proofs.Session.Run

/-! Whether the listed rows are those that outline and expansions call for. Every operation keeps
them so but one: opening the document that has the focus already clears the expansions, and with
nothing queued the rows are not listed again. -/

namespace YamlOutline.Session
variable {s s' : Session}

/-- The rows are what the outline and the expansions call for. -/
def Fresh (s : Session) : Prop :=
  s.rows = Outline.visibleRows s.expanded s.tracker.roots

instance (s : Session) : Decidable s.Fresh :=
  inferInstanceAs (Decidable (_ = _))

/-- Some row is listed as showing its children. -/
def Unfolded (s : Session) : Prop :=
  ∃ r ∈ s.rows, r.expanded = true

/-- The path names the active document, and some row shows its children. -/
def Reopens (s : Session) (path : String) : Prop :=
  s.Unfolded ∧ ∃ d, s.workspace.activeDocument = some d ∧ d.uri = path

/-- The operation clears the expansions of an unfolded outline without moving the focus. -/
def Strands (s : Session) : Operation → Prop
  | .openSelected =>
    s.Unfolded ∧ (s.workspace.documents.length ≤ s.file ∨ s.workspace.active = some s.file)
  | .openPath path => s.Reopens path
  | .runCommand => ∃ path, splitCommand s.command = ("e", path) ∧ path.isEmpty = false ∧
      (s.atCommand.exitEditor false).Reopens path
  | _ => False

private theorem Fresh.path_mem (h : s.Fresh) {r : Outline.Row} (hr : r ∈ s.rows)
    (hx : r.expanded = true) :
    r.path ∈ s.expanded := by
  rw [h] at hr
  exact Outline.path_mem_of_expanded hr hx

/-- Clearing the expansions leaves the rows right only if none of them shows its children. -/
private theorem Fresh.resetSelection_iff (h : s.Fresh) : s.resetSelection.Fresh ↔ ¬ s.Unfolded := by
  have hr : s.resetSelection.Fresh ↔
      Outline.visibleRows s.expanded s.tracker.roots = Outline.visibleRows [] s.tracker.roots := by
    rw [← h]
    rfl
  rw [hr, Outline.visibleRows_eq_nil_iff, ← h]
  simp [Unfolded]

/-! ### Deliveries -/

private theorem Delivers.outlineChanged (h : s.Delivers s')
    (hc : s.workspace.outlineChanged = true) :
    s'.workspace.outlineChanged = true := by
  rcases h.redraws with hr | ⟨hr, _⟩
  · exact hr
  · exact hr.trans hc

/-- Looking up the active document marks the outline as built again. -/
private theorem handle_outlineChanged (s : Session) {x : Editor.Event} (hx : x.follows = true) :
    (s.handle x).workspace.outlineChanged = true := by
  have he : (s.handle x).workspace = (s.tracker.follow (Workspace.editor s.disk) s.workspace).2 := by
    simp only [handle, track, Tracker.handle_of_follows hx]
  rw [he]
  exact (s.tracker.follow_redrawn s.disk s.workspace).outlineChanged

private theorem deliver_outlineChanged {x : Editor.Event} (h : x ∈ s.workspace.pending)
    (hx : x.follows = true) : s.deliver.workspace.outlineChanged = true := by
  obtain ⟨es, rest, hp⟩ := List.append_of_mem h
  rw [deliver_eq, hp, List.foldl_append, List.foldl_cons]
  exact (foldl_handle_delivers rest _).1.outlineChanged (handle_outlineChanged _ hx)

private theorem drain_outlineChanged {x : Editor.Event} (h : x ∈ s.workspace.pending)
    (hx : x.follows = true) : s.drain.workspace.outlineChanged = true := by
  have hd := deliver_outlineChanged h hx
  rcases s.drain_cases with ⟨hp, _⟩ | ⟨_, he⟩ | ⟨_, he⟩
  · rw [hp] at h
    cases h
  · rwa [he]
  · rw [he]
    exact s.deliver.deliver_delivers.outlineChanged hd

private theorem sync_expanded (s : Session) : s.sync.expanded = s.expanded := by
  rw [sync_frame]

theorem sync_fresh_of_drain (h : s.drain.workspace.outlineChanged = true) : s.sync.Fresh := by
  rw [Fresh, sync_rows, if_pos h, sync_expanded, sync_tracker]

/-- Having the active document looked up ends with the rows listed again. -/
private theorem sync_fresh_of_follows {x : Editor.Event} (h : x ∈ s.workspace.pending)
    (hx : x.follows = true) : s.sync.Fresh :=
  sync_fresh_of_drain (drain_outlineChanged h hx)

theorem sync_fresh_of_changed (h : s.workspace.outlineChanged = true) : s.sync.Fresh :=
  sync_fresh_of_drain (s.drain_delivers.outlineChanged h)

/-- A delivery keeps the rows right: they are listed again, or the tracker is the same. -/
private theorem Fresh.sync (h : s.Fresh) : s.sync.Fresh := by
  rcases s.drain_delivers.redraws with hc | ⟨_, ht⟩
  · exact sync_fresh_of_drain hc
  · rw [Fresh, sync_rows, sync_expanded, sync_tracker, ht]
    split
    · rfl
    · exact h

/-! ### Operations -/

private theorem commitEdit_fresh (h : s.Fresh) (text : String) : (s.commitEdit text).Fresh := by
  have hc : Fresh { s with workspace := s.workspace.commit text } := h
  exact hc.sync

private theorem exitEditor_fresh (h : s.Fresh) (discard : Bool) : (s.exitEditor discard).Fresh := by
  rcases s.exitEditor_cases discard with ⟨_, he⟩ | ⟨_, uri, text, _, he⟩ <;> rw [he]
  · exact h
  · exact commitEdit_fresh h text

private theorem save_fresh (h : s.Fresh) (hs : s.save = .ok s') : s'.Fresh := by
  rcases save_cases hs with ⟨_, rfl⟩ | ⟨uri, text, disk, _, _, rfl⟩
  · exact h
  · have hd : Fresh { s with disk } := h
    exact commitEdit_fresh hd text

private theorem dispatch_fresh (h : s.Fresh) (command : Editor.Command) :
    (s.dispatch command).Fresh := by
  cases command with
  | showOutline =>
    exact sync_fresh_of_changed (s.tracker.follow_redrawn s.disk s.workspace).outlineChanged
  | reveal span uri =>
    have hr : Fresh (s.track fun e t w => t.execute e (.reveal span uri) w) := h
    exact hr.sync

private theorem revealSelected_fresh (h : s.Fresh) : s.revealSelected.Fresh := by
  unfold revealSelected
  split
  · exact h
  · exact dispatch_fresh h _

private theorem moveDown_fresh (h : s.Fresh) : s.moveDown.Fresh := by
  unfold moveDown
  split <;> exact h

/-- Expanding lists the rows again. -/
theorem expandOrDescend_fresh (h : s.Fresh) : s.expandOrDescend.Fresh := by
  unfold expandOrDescend
  split
  · exact h
  · split
    · exact h
    · split
      · exact moveDown_fresh h
      · exact rfl

theorem collapseOrAscend_fresh (h : s.Fresh) : s.collapseOrAscend.Fresh := by
  unfold collapseOrAscend
  split
  · exact h
  · split
    · exact rfl
    · split <;> exact h

private theorem quitOrBack_fresh (h : s.Fresh) : s.quitOrBack.2.Fresh := by
  unfold quitOrBack
  split <;> exact h

/-- Opening the selected document strands the rows exactly if the focus was there already. -/
private theorem openSelected_fresh_iff (h : s.Fresh) (hs : s.Settled) :
    s.openSelected.Fresh ↔ ¬ s.Strands .openSelected := by
  have he : s.openSelected.Fresh ↔
      Fresh { s.resetSelection with workspace := s.workspace.focus s.file }.sync := Iff.rfl
  rw [he]
  rcases s.workspace.focus_cases s.file with ⟨hf, hc⟩ | ⟨hl, ha, hf⟩ <;> rw [hf]
  · have hr : s.resetSelection.Settled := ⟨hs.pending, hs.drawn⟩
    change s.resetSelection.sync.Fresh ↔ _
    rw [hr.sync_eq, h.resetSelection_iff]
    simp [Strands, hc]
  · refine iff_of_true (sync_fresh_of_follows (x := .activeChanged) (by simp) rfl) fun hst => ?_
    rcases hst.2 with hn | hn
    · omega
    · exact ha hn

/-- Opening a path strands the rows exactly if it names the active document. -/
private theorem openPath_fresh_iff (h : s.Fresh) (hs : s.Settled) (hw : s.workspace.Sound)
    (path : String) :
    (s.openPath path).Fresh ↔ ¬ s.Reopens path := by
  rcases s.workspace.openFile_cases s.disk path with ⟨i, hi, ho⟩ | ⟨hn, hf⟩
  · rcases s.openPath_cases path with ⟨hx, _⟩ | ⟨index, isMulti, _, he⟩
    · rw [ho] at hx
      cases hx
    rw [he, ho]
    rcases s.workspace.focus_cases i with ⟨hf, hc⟩ | ⟨_, ha, hf⟩ <;> simp only [hf]
    · obtain ⟨d, hd, hu⟩ := Workspace.getElem?_of_indexOf? hi
      obtain ⟨hl, _⟩ := List.getElem?_eq_some_iff.mp hd
      have ha : s.workspace.active = some i := hc.resolve_left (by omega)
      have hr : Settled { s.resetSelection with file := index, isMulti } := ⟨hs.pending, hs.drawn⟩
      change Fresh { s.resetSelection with file := index, isMulti }.sync ↔ _
      rw [hr.sync_eq]
      refine h.resetSelection_iff.trans (not_congr ⟨fun hr => ⟨hr, d, ?_, hu⟩, And.left⟩)
      exact Workspace.activeDocument_eq_some.mpr ⟨i, ha, hd⟩
    · refine iff_of_true (sync_fresh_of_follows (x := .activeChanged) (by simp) rfl) ?_
      rintro ⟨_, d, hd, rfl⟩
      obtain ⟨j, hj, hu⟩ := hw.indexOf?_active hd
      exact ha (hj.trans (hu.symm.trans hi))
  · have hr : ¬ s.Reopens path := by
      rintro ⟨_, d, hd, rfl⟩
      obtain ⟨j, _, hu⟩ := hw.indexOf?_active hd
      rw [hn] at hu
      cases hu
    refine iff_of_true ?_ hr
    rcases hf with ⟨d, _, ho⟩ | ⟨message, ho⟩
    · have hm : Editor.Event.opened d.uri ∈
          ((s.workspace.add d).focus s.workspace.documents.length).pending :=
        Workspace.mem_pending_focus (by simp [Workspace.add, Workspace.push]) _
      rcases s.openPath_cases path with ⟨_, he⟩ | ⟨index, isMulti, _, he⟩ <;> rw [he, ho] <;>
        exact sync_fresh_of_follows hm rfl
    · rcases s.openPath_cases path with ⟨_, he⟩ | ⟨index, isMulti, hx, _⟩
      · rw [he, ho]
        have hm : Fresh { s with workspace.message := message } := h
        exact hm.sync
      · rw [ho] at hx
        cases hx

/-- Closing clears the expansions too, but is followed by a look-up, or there is no outline. -/
private theorem closeActive_fresh (h : s.Fresh) (hs : s.Settled)
    (hi : s.tracker.InStep s.workspace) :
    s.closeActive.Fresh := by
  unfold closeActive
  rcases s.workspace.closeActive_cases with ⟨ha, hc⟩ | ⟨i, d, _, _, hc⟩ <;> rw [hc]
  · have hr : Settled { s.resetSelection with file := s.workspace.active.getD 0 } :=
      ⟨hs.pending, hs.drawn⟩
    change Fresh { s.resetSelection with file := s.workspace.active.getD 0 }.sync
    rw [hr.sync_eq]
    refine h.resetSelection_iff.mpr ?_
    -- Without an active document the outline is empty, and no row can show anything.
    have hroots : s.tracker.roots = [] := by
      rw [(mirrors_of_quiet hi hs.pending).roots, Workspace.activeYaml, ha]
      rfl
    rintro ⟨r, hr, _⟩
    rw [h, hroots] at hr
    cases hr
  · exact sync_fresh_of_follows (x := .activeChanged) (by simp) rfl

/-- In step, with nothing queued, and with the right rows. -/
structure Tidy (s : Session) : Prop where
  inStep : s.tracker.InStep s.workspace
  settled : s.Settled
  fresh : s.Fresh

private theorem Tidy.exitEditor (h : s.Tidy) (discard : Bool) : (s.exitEditor discard).Tidy :=
  have ho := exitEditor_outcome h.inStep discard
  ⟨ho.inStep, ho.keeps_settled h.settled, exitEditor_fresh h.fresh discard⟩

/-- A command line strands the rows exactly if it reopens the active document. -/
private theorem obey_fresh_iff (h : s.Tidy) (line : String) :
    (s.obey line).2.Fresh ↔ ¬ ∃ path, splitCommand line = ("e", path) ∧ path.isEmpty = false ∧
      (s.exitEditor false).Reopens path := by
  have hno (hn : (splitCommand line).1 = "e" → (splitCommand line).2.isEmpty = true) :
      ¬ ∃ path, splitCommand line = ("e", path) ∧ path.isEmpty = false ∧
        (s.exitEditor false).Reopens path := by
    rintro ⟨path, hp, hne, _⟩
    rw [hp, hne] at hn
    exact Bool.false_ne_true (hn rfl)
  have ho := s.obey_obeys line
  generalize (s.obey line).2 = s' at ho
  cases ho with
  | write s' hn hs => exact iff_of_true (save_fresh h.fresh hs) (hno (by simp [hn]))
  | writeAndLeave s' hn hs =>
    exact iff_of_true (exitEditor_fresh (save_fresh h.fresh hs) false) (hno (by simp [hn]))
  | writeFails e hn _ => exact iff_of_true h.fresh (hno (by rcases hn with hn | hn <;> simp [hn]))
  | leave discard hn =>
    exact iff_of_true (exitEditor_fresh h.fresh discard) (hno (by cases discard <;> simp [hn]))
  | back hn =>
    exact iff_of_true (quitOrBack_fresh h.fresh) (hno (by rcases hn with hn | hn <;> simp [hn]))
  | outline hn => exact iff_of_true (dispatch_fresh h.fresh .showOutline) (hno (by simp [hn]))
  | close hn =>
    refine iff_of_true ?_ (hno (by simp [hn]))
    split
    · have hx := h.exitEditor true
      exact closeActive_fresh hx.fresh hx.settled hx.inStep
    · exact closeActive_fresh h.fresh h.settled h.inStep
  | openPath path hn hp =>
    have hx := h.exitEditor false
    refine (openPath_fresh_iff hx.fresh hx.settled hx.inStep.sound path).trans (not_congr ?_)
    constructor
    · exact fun hr => ⟨path, hn, hp, hr⟩
    · rintro ⟨path', hp', _, hr⟩
      rw [hn] at hp'
      cases hp'
      exact hr
  | nothing message hn => exact iff_of_true h.fresh (hno hn)

/-- The step lemma: an operation keeps the rows right exactly if it does not strand them. -/
private theorem Operation.run_fresh_iff (h : s.Tidy) (op : Operation) :
    (op.run s).Fresh ↔ ¬ s.Strands op := by
  cases op with
  | openSelected => exact openSelected_fresh_iff h.fresh h.settled
  | openPath path => exact openPath_fresh_iff h.fresh h.settled h.inStep.sound path
  | runCommand =>
    have ha : s.atCommand.Tidy :=
      ⟨((Untouched.outcome ⟨rfl, rfl, rfl, rfl, rfl⟩ h.inStep : s.Outcome s.atCommand)).inStep,
        ⟨h.settled.pending, h.settled.drawn⟩, h.fresh⟩
    exact obey_fresh_iff ha s.command
  | sync => exact iff_of_true h.fresh.sync id
  | dispatch command => exact iff_of_true (dispatch_fresh h.fresh command) id
  | moveDown => exact iff_of_true (moveDown_fresh h.fresh) id
  | expandOrDescend => exact iff_of_true (expandOrDescend_fresh h.fresh) id
  | collapseOrAscend => exact iff_of_true (collapseOrAscend_fresh h.fresh) id
  | revealSelected => exact iff_of_true (revealSelected_fresh h.fresh) id
  | closeActive => exact iff_of_true (closeActive_fresh h.fresh h.settled h.inStep) id
  | save =>
    refine iff_of_true ?_ id
    simp only [run]
    split
    · rename_i s' hs
      exact save_fresh h.fresh hs
    · exact h.fresh
  | enterEditor =>
    refine iff_of_true ?_ id
    simp only [run, Session.enterEditor]
    split <;> exact h.fresh
  | exitEditor discard => exact iff_of_true (exitEditor_fresh h.fresh discard) id
  | quitOrBack => exact iff_of_true (quitOrBack_fresh h.fresh) id
  | moveUp | beginCommand | cancelCommand | selectFile | typeCommand | edit | «show» | replaceDisk =>
    exact iff_of_true h.fresh id

/-! ### Runs -/

/-- The session after some operations, one after the other. -/
def perform (s : Session) (ops : List Operation) : Session :=
  ops.foldl (fun s op => op.run s) s

/-- The run lemma: the rows are right all the way exactly if no operation strands them. -/
private theorem perform_fresh_iff (h : s.Tidy) (ops : List Operation) :
    (∀ pre, pre <+: ops → (s.perform pre).Fresh) ↔
      ∀ pre op, pre ++ [op] <+: ops → ¬ (s.perform pre).Strands op := by
  have hQ (s : Session) (hq : s.tracker.InStep s.workspace ∧ s.Settled) (op : Operation) (_ : op ∈ ops) :
      (op.run s).tracker.InStep (op.run s).workspace ∧ (op.run s).Settled :=
    have ho := op.run_outcome hq.1
    ⟨ho.inStep, ho.keeps_settled hq.2⟩
  exact foldl_keeps_iff hQ (fun s hq hp op _ => op.run_fresh_iff ⟨hq.1, hq.2, hp⟩)
    ⟨h.inStep, h.settled⟩ h.fresh

private theorem started_tidy {documents : List Document} (h : (documents.map Document.uri).Nodup)
    (disk : Files.Disk) (tracker : Tracker) (extensions : List String) :
    (started disk tracker documents extensions).Tidy where
  inStep := started_inStep h disk tracker extensions
  settled := sync_settled _
  fresh := sync_fresh_of_changed (Tracker.follow_redrawn ..).outlineChanged

/-- From the first outline on, the rows are right after every operation of a run exactly if no
operation of the run clears the expansions of an unfolded outline without moving the focus. Where
they are right, a row shows its children only if its path is expanded. -/
theorem rows_fresh_iff_never_stranded (disk : Files.Disk) (tracker : Tracker)
    (documents : List Document) (extensions : List String)
    (h : (documents.map Document.uri).Nodup) (ops : List Operation) :
    ((∀ pre, pre <+: ops → ((started disk tracker documents extensions).perform pre).Fresh) ↔
        ∀ pre op, pre ++ [op] <+: ops →
          ¬ ((started disk tracker documents extensions).perform pre).Strands op) ∧
      ∀ pre s, pre <+: ops → (started disk tracker documents extensions).perform pre = s →
        s.Fresh → ∀ r ∈ s.rows, r.expanded = true → r.path ∈ s.expanded :=
  ⟨perform_fresh_iff (started_tidy h disk tracker extensions) ops,
    fun _ _ _ _ hf _ hr hx => hf.path_mem hr hx⟩

/-- Unfolding and moving about strands nothing. -/
theorem rows_fresh_while_unfolding :
    ([⟨"a.yaml", "yaml", "a:\n  b:\n    c: 1\n"⟩].map Document.uri).Nodup ∧
      ∀ pre, pre <+: [.expandOrDescend, .moveDown, .collapseOrAscend] →
        ((started (.ofFolder [] []) {} [⟨"a.yaml", "yaml", "a:\n  b:\n    c: 1\n"⟩] []).perform pre).Fresh := by
  have h : ([⟨"a.yaml", "yaml", "a:\n  b:\n    c: 1\n"⟩].map Document.uri).Nodup := by decide
  refine ⟨h, (rows_fresh_iff_never_stranded (.ofFolder [] []) {} _ [] h _).1.mpr fun pre op hp => ?_⟩
  have hm : op ∈ [Operation.expandOrDescend, .moveDown, .collapseOrAscend] := hp.subset (by simp)
  simp only [List.mem_cons, List.not_mem_nil, or_false] at hm
  rcases hm with rfl | rfl | rfl <;> exact id

/-- Unfolding a row and opening the same document again leaves the row unfolded, though no path is
expanded any more. -/
theorem rows_stale_after_reopening :
    ([⟨"a.yaml", "yaml", "a:\n  b:\n    c: 1\n"⟩].map Document.uri).Nodup ∧
      ∃ s, (started (.ofFolder [] []) {} [⟨"a.yaml", "yaml", "a:\n  b:\n    c: 1\n"⟩] []).perform
          [.expandOrDescend, .openSelected] = s ∧
        ¬ s.Fresh ∧ s.expanded = [] ∧ ∃ r ∈ s.rows, r.expanded = true :=
  ⟨by decide, _, rfl, by decide, by decide, by decide⟩

end YamlOutline.Session
