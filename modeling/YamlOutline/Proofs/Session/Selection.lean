import YamlOutline.Proofs.Buffer.LineEndings
import YamlOutline.Proofs.Document.Positions
import YamlOutline.Proofs.Outline.Paths
import YamlOutline.Proofs.Session.Freshness
import YamlOutline.Proofs.Session.Placement
import YamlOutline.Session.Keys

/-! The selected row. Rows may be listed for expansions that are not those of the session any more, but they
are always listed from the outline that the tracker holds, which is that of the active document. So the path
of a row leads to its entry, and its span lies in the text that is shown. -/

namespace YamlOutline.Session
open Outline (Row visibleRows)

/-- An operation of the session, or one of the two that build the outline and list its rows. -/
inductive Action where
  | own (op : Operation)
  | start
  | rebuildRows

def Action.run (s : Session) : Action → Session
  | .own op => op.run s
  | .start => s.start
  | .rebuildRows => s.rebuildRows

/-- The session after some actions, one after the other. -/
def act (s : Session) (actions : List Action) : Session :=
  actions.foldl Action.run s

variable {s s' : Session} {d : Document} {r : Row}

/-- The rows were listed from the outline that the tracker holds, for some expansions. -/
def Listed (s : Session) : Prop :=
  ∃ expanded, s.rows = visibleRows expanded s.tracker.roots

theorem Fresh.listed (h : s.Fresh) : s.Listed := ⟨_, h⟩

private theorem Listed.sync (h : s.Listed) : s.sync.Listed := by
  rcases s.drain_delivers.redraws with hc | ⟨_, ht⟩
  · exact (sync_fresh_of_drain hc).listed
  · rw [Listed, sync_rows, sync_tracker, ht]
    split
    · exact ⟨_, rfl⟩
    · exact h

/-! ### Operations -/

private theorem Listed.commitEdit (h : s.Listed) (text : String) : (s.commitEdit text).Listed := by
  have hc : Listed { s with workspace := s.workspace.commit text } := h
  exact hc.sync

theorem Listed.exitEditor (h : s.Listed) (discard : Bool) : (s.exitEditor discard).Listed := by
  rcases s.exitEditor_cases discard with ⟨_, he⟩ | ⟨_, uri, text, _, he⟩ <;> rw [he]
  · exact h
  · exact h.commitEdit text

theorem Listed.save (h : s.Listed) (hs : s.save = .ok s') : s'.Listed := by
  rcases save_cases hs with ⟨_, rfl⟩ | ⟨uri, text, disk, _, _, rfl⟩
  · exact h
  · have hd : Listed { s with disk } := h
    exact hd.commitEdit text

private theorem Listed.dispatch (h : s.Listed) (command : Editor.Command) :
    (s.dispatch command).Listed := by
  cases command with
  | showOutline =>
    exact (sync_fresh_of_changed (s.tracker.follow_redrawn s.disk s.workspace).outlineChanged).listed
  | reveal span uri =>
    have hr : Listed (s.track fun e t w => t.execute e (.reveal span uri) w) := h
    exact hr.sync

private theorem Listed.moveDown (h : s.Listed) : s.moveDown.Listed := by
  unfold Session.moveDown
  split <;> exact h

private theorem Listed.expandOrDescend (h : s.Listed) : s.expandOrDescend.Listed := by
  unfold Session.expandOrDescend
  repeat' split
  · exact h
  · exact h
  · exact h.moveDown
  · exact ⟨_, rfl⟩

private theorem Listed.collapseOrAscend (h : s.Listed) : s.collapseOrAscend.Listed := by
  unfold Session.collapseOrAscend
  repeat' split
  · exact h
  · exact ⟨_, rfl⟩
  · exact h
  · exact h

private theorem Listed.openPath (h : s.Listed) (path : String) : (s.openPath path).Listed := by
  rcases s.openPath_cases path with ⟨_, he⟩ | ⟨index, isMulti, _, he⟩ <;> rw [he] <;>
    exact Listed.sync h

private theorem Listed.closeActive (h : s.Listed) : s.closeActive.Listed := by
  have hc : Listed { s.resetSelection with
      workspace := s.workspace.closeActive, file := s.workspace.closeActive.active.getD 0 } := h
  exact hc.sync

theorem Listed.obey (h : s.Listed) (line : String) : (s.obey line).2.Listed := by
  have ho := s.obey_obeys line
  generalize (s.obey line).2 = s' at ho
  cases ho with
  | write s' _ hs => exact h.save hs
  | writeAndLeave s' _ hs => exact (h.save hs).exitEditor false
  | writeFails e _ _ => exact h
  | leave discard _ => exact h.exitEditor discard
  | back _ =>
    unfold quitOrBack
    split <;> exact h
  | outline _ => exact h.dispatch .showOutline
  | close _ =>
    split
    · exact (h.exitEditor true).closeActive
    · exact h.closeActive
  | openPath path _ _ => exact (h.exitEditor false).openPath path
  | nothing message _ => exact h

theorem Operation.run_listed (h : s.Listed) (op : Operation) : (op.run s).Listed := by
  cases op with
  | sync => exact h.sync
  | dispatch command => exact h.dispatch command
  | moveDown => exact h.moveDown
  | expandOrDescend => exact h.expandOrDescend
  | collapseOrAscend => exact h.collapseOrAscend
  | revealSelected =>
    simp only [run, Session.revealSelected]
    split
    · exact h
    · exact h.dispatch _
  | openSelected =>
    have hf : Listed { s.resetSelection with workspace := s.workspace.focus s.file } := h
    exact hf.sync
  | openPath path => exact h.openPath path
  | closeActive => exact h.closeActive
  | enterEditor =>
    simp only [run, Session.enterEditor]
    split <;> exact h
  | save =>
    simp only [run]
    split
    · rename_i s' hs
      exact h.save hs
    · exact h
  | exitEditor discard => exact h.exitEditor discard
  | runCommand =>
    have ha : s.atCommand.Listed := h
    exact ha.obey s.command
  | quitOrBack =>
    simp only [run, Session.quitOrBack]
    split <;> exact h
  | moveUp | beginCommand | cancelCommand | selectFile | typeCommand | edit | «show» | replaceDisk =>
    exact h

/-- In step, with nothing queued, and with rows from the outline that the tracker holds. -/
structure Shown (s : Session) : Prop where
  inStep : s.tracker.InStep s.workspace
  settled : s.Settled
  listed : s.Listed

/-- Building the first outline lists the rows. -/
private theorem start_shown (hw : s.workspace.Sound) (hp : s.workspace.pending = []) :
    s.start.Shown where
  inStep := sync_inStep (activate_inStep hw hp)
  settled := sync_settled _
  listed := (sync_fresh_of_changed (Tracker.follow_redrawn ..).outlineChanged).listed

/-- The step lemma. -/
private theorem Action.run_shown (h : s.Shown) (action : Action) : (action.run s).Shown := by
  cases action with
  | own op =>
    have ho := op.run_outcome h.inStep
    exact ⟨ho.inStep, ho.keeps_settled h.settled, op.run_listed h.listed⟩
  | start => exact start_shown h.inStep.sound h.settled.pending
  | rebuildRows => exact ⟨h.inStep, ⟨h.settled.pending, h.settled.drawn⟩, _, rfl⟩

/-- The run lemma. -/
theorem act_shown (h : s.Shown) (actions : List Action) : (s.act actions).Shown := by
  induction actions generalizing s with
  | nil => exact h
  | cons action actions ih => exact ih (action.run_shown h)

/-! ### The selected row -/

/-- A row is listed only for the outline of the active document. -/
private theorem Shown.exists_activeDocument (h : s.Shown) (hr : s.selected? = some r) :
    ∃ d, s.workspace.activeDocument = some d ∧ s.tracker.document = some d := by
  have hm := mirrors_of_quiet h.inStep h.settled.pending
  obtain ⟨expanded, hrows⟩ := h.listed
  cases hd : s.workspace.activeYaml with
  | some d => exact ⟨d, (Option.filter_eq_some_iff.mp hd).1, hm.document.trans hd⟩
  | none =>
    -- Without a document the outline is empty, and so are the rows.
    have hroots : s.tracker.roots = [] := by
      rw [hm.roots, hd]
      rfl
    have hmem := List.mem_of_getElem? hr
    rw [hrows, hroots] at hmem
    cases hmem

private theorem Shown.node? (h : s.Shown) (hr : s.selected? = some r) :
    r.path ≠ [] ∧ ∃ item, s.tracker.node? r.path = some item ∧ r.Shows item := by
  obtain ⟨expanded, hrows⟩ := h.listed
  have hmem := List.mem_of_getElem? hr
  rw [hrows] at hmem
  exact Tracker.descend?_of_mem_visibleRows hmem

/-- The labels are those of the items on the way to the selected row, none left out. -/
private theorem Shown.breadcrumb_eq (h : s.Shown) (hr : s.selected? = some r) :
    s.breadcrumb.map some = (List.range r.path.length).map fun k =>
      (s.tracker.node? (r.path.take (k + 1))).map Outline.Item.label := by
  obtain ⟨-, item, hitem, -⟩ := h.node? hr
  simp only [breadcrumb, hr]
  rw [List.map_filterMap_some_eq_filter_map_isSome, List.filter_eq_self]
  intro label hl
  obtain ⟨k, hk, rfl⟩ := List.mem_map.mp hl
  obtain ⟨item', hi⟩ := Tracker.descend?_take hitem (List.mem_range.mp hk)
  rw [Tracker.node?, hi]
  rfl

/-- Going to the selected row moves the cursor and nothing else. -/
private theorem Shown.revealSelected_eq (h : s.Shown) (hr : s.selected? = some r)
    (hd : s.workspace.activeDocument = some d) :
    ∃ notes, s.revealSelected =
      { s with workspace := { s.workspace with cursor := d.lineStartAt r.span.start, notes } } := by
  obtain ⟨note, he⟩ := Tracker.revealSpan_active h.inStep.sound hd s.disk (r.span.start, r.span.stop)
  refine ⟨s.workspace.notes ++ [note], ?_⟩
  simp only [revealSelected, hr]
  let tracked := s.track fun e t w => t.execute e (.reveal (r.span.start, r.span.stop) none) w
  have ht : tracked = { s with workspace := { s.workspace with
      cursor := d.lineStartAt r.span.start, notes := s.workspace.notes ++ [note] } } :=
    congrArg (fun workspace => { s with workspace }) he
  have hs : tracked.Settled := by
    rw [ht]
    exact ⟨h.settled.pending, h.settled.drawn⟩
  exact hs.sync_eq.trans ht

/-- The key for editing loads the active document, with the cursor at the start of the line on which the
selected row's span begins. -/
private theorem Shown.outlineKey_edit (h : s.Shown) (hr : s.selected? = some r)
    (hd : s.workspace.activeDocument = some d) :
    ∃ s', s.outlineKey (.char 'e') = (false, s') ∧ s'.view = .editor ∧ s'.buffer =
      some { Buffer.ofText d.text with row := (d.lineStartAt r.span.start).line, column := 0 } := by
  obtain ⟨notes, he⟩ := h.revealSelected_eq hr hd
  have hd' : s.revealSelected.workspace.activeDocument = some d := by rw [he]; exact hd
  have hc : s.revealSelected.workspace.cursor = d.lineStartAt r.span.start := by rw [he]
  have hmin : min (d.lineStartAt r.span.start).line (d.lineCount - 1) = (d.lineStartAt r.span.start).line :=
    Nat.min_eq_left (Nat.le_sub_one_of_lt (d.lineStartAt_lt r.span.start))
  refine ⟨_, rfl, ?_⟩
  simp only [enterEditor, hd', hc, hmin]
  exact ⟨trivial, rfl⟩

theorem started_shown {documents : List Document} (h : (documents.map Document.uri).Nodup)
    (disk : Files.Disk) (tracker : Tracker) (extensions : List String) :
    (started disk tracker documents extensions).Shown :=
  start_shown (.ofDocuments h extensions) rfl

/-- From the first outline on, after any actions, for the row `r` that is selected. The breadcrumb has one
label for each index of the row's path, that of the item that the path leads to up to there, and ends in the
row's own label. Going to the row puts the cursor at the start of the line that the row's span begins on, in
the active document as it is then, and does nothing else but leave a note. The key for editing, then or
without going to the row first, loads the lines of that document with the cursor at the same place. -/
theorem selected_row_leads_to_its_line (disk : Files.Disk) (tracker : Tracker)
    (documents : List Document) (extensions : List String)
    (h : (documents.map Document.uri).Nodup) (actions : List Action) :
    ∀ s r, (started disk tracker documents extensions).act actions = s → s.selected? = some r →
      s.breadcrumb.length = r.path.length ∧
      (∀ k, k < r.path.length → ∃ item, s.tracker.node? (r.path.take (k + 1)) = some item ∧
        s.breadcrumb[k]? = some item.label) ∧
      s.breadcrumb.getLast? = some r.label ∧
      ∃ d before after, s.workspace.activeDocument = some d ∧ s.tracker.document = some d ∧
        d.text.toList = before ++ after ∧ Text.size before = d.clampOffset r.span.start ∧
        (∃ notes, s.revealSelected = { s with
          workspace := { s.workspace with cursor := ⟨before.count '\n', 0⟩, notes } }) ∧
        s.revealSelected.workspace.pending = [] ∧
        (∀ t, t = s ∨ t = s.revealSelected → ∃ s', t.outlineKey (.char 'e') = (false, s') ∧
          s'.view = .editor ∧
          s'.buffer = some { Buffer.ofText d.text with row := before.count '\n', column := 0 }) ∧
        (Buffer.ofText d.text).rows.map (fun row => .ofList (Text.dropEndWhile Text.isReturn row)) =
          (List.range d.lineCount).map d.line := by
  rintro s r rfl hr
  have hs : Shown ((started disk tracker documents extensions).act actions) :=
    act_shown (started_shown h disk tracker extensions) actions
  generalize (started disk tracker documents extensions).act actions = s at hs hr ⊢
  have hb := hs.breadcrumb_eq hr
  obtain ⟨hne, item, hitem, hlabel, -⟩ := hs.node? hr
  obtain ⟨d, hd, ht⟩ := hs.exists_activeDocument hr
  obtain ⟨before, after, htext, hsize, hline⟩ := d.exists_clampOffset r.span.start
  have hstart : d.lineStartAt r.span.start = ⟨before.count '\n', 0⟩ := by rw [← hline]; rfl
  obtain ⟨notes, hreveal⟩ := hs.revealSelected_eq hr hd
  have hlength : s.breadcrumb.length = r.path.length := by simpa using congrArg List.length hb
  have hlabels (k : Nat) (hk : k < r.path.length) :
      ∃ item, s.tracker.node? (r.path.take (k + 1)) = some item ∧ s.breadcrumb[k]? = some item.label := by
    obtain ⟨item', hi⟩ := Tracker.descend?_take hitem hk
    have hk' := congrArg (·[k]?) hb
    simp only [List.getElem?_map, List.getElem?_range hk, Option.map_some, Tracker.node?, hi] at hk'
    exact ⟨item', hi, by simpa using hk'⟩
  refine ⟨hlength, hlabels, ?_, d, before, after, hd, ht, htext, hsize, ⟨notes, hstart ▸ hreveal⟩, ?_, ?_,
    Buffer.rows_ofText d⟩
  · have hpos : 0 < r.path.length := List.length_pos_iff.mpr hne
    obtain ⟨item', hi, hlast⟩ := hlabels (r.path.length - 1) (Nat.sub_one_lt_of_lt hpos)
    rw [Nat.sub_add_cancel hpos, List.take_length, hitem] at hi
    rw [List.getLast?_eq_getElem?, hlength, hlast, hlabel, Option.some.inj hi]
  · rw [hreveal]
    exact hs.settled.pending
  · rintro t (rfl | rfl)
    · exact hline ▸ hs.outlineKey_edit hr hd
    · have hr' : s.revealSelected.selected? = some r := by rw [hreveal]; exact hr
      have hd' : s.revealSelected.workspace.activeDocument = some d := by rw [hreveal]; exact hd
      have hs' : s.revealSelected.Shown := (Action.own .revealSelected).run_shown hs
      exact hline ▸ hs'.outlineKey_edit hr' hd'

/-- The second of two entries is unfolded and the one below it selected, after the text was edited. -/
theorem selected_row_leads_to_its_line_after_edit :
    ([⟨"a.yaml", "yaml", "k:\n  - 1\n"⟩].map Document.uri).Nodup ∧
      ∃ s r, (started (.ofFolder [] []) {} [⟨"a.yaml", "yaml", "k:\n  - 1\n"⟩] []).act
          [.own .enterEditor, .own (.edit (.ofText "k:\n  - 1\nl:\n  m:\n    n: 1\n")),
            .own (.exitEditor false), .own .moveDown, .own .expandOrDescend, .own .moveDown] = s ∧
        s.selected? = some r ∧ r.label = "m:" ∧ s.breadcrumb.length = 2 ∧
          s.breadcrumb.getLast? = some "m:" ∧ s.revealSelected.workspace.cursor = ⟨3, 0⟩ := by
  have h : ([⟨"a.yaml", "yaml", "k:\n  - 1\n"⟩].map Document.uri).Nodup := by decide
  have hr : ((started (.ofFolder [] []) {} [⟨"a.yaml", "yaml", "k:\n  - 1\n"⟩] []).act
      [.own .enterEditor, .own (.edit (.ofText "k:\n  - 1\nl:\n  m:\n    n: 1\n")),
        .own (.exitEditor false), .own .moveDown, .own .expandOrDescend, .own .moveDown]).selected? =
      some ⟨[1, 0], "m:", false, false, true, [false], ⟨14, 25⟩⟩ := by decide +kernel
  obtain ⟨hlength, -, hlast, -⟩ := selected_row_leads_to_its_line (.ofFolder [] []) {} _ [] h _ _ _ rfl hr
  exact ⟨h, _, _, rfl, hr, rfl, hlength, hlast, by decide +kernel⟩

end YamlOutline.Session
