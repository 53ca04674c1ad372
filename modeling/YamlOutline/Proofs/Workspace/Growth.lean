import YamlOutline.Proofs.Tracker.Refresh
import YamlOutline.Proofs.Workspace.Soundness

/-! What the tracker does to the workspace that it calls back: it may add documents behind the open
ones and announce them. It never closes one, never edits one and never moves the focus. -/

namespace YamlOutline.Workspace
variable {w w' w'' : Workspace} {ds es : List Document}

/-- `w'` has the documents of `w` and behind them `ds`, with focus and cursor where they were. -/
structure Grows (w : Workspace) (ds : List Document) (w' : Workspace) : Prop where
  documents : w'.documents = w.documents ++ ds
  active : w'.active = w.active
  cursor : w'.cursor = w.cursor
  extensions : w'.extensions = w.extensions
  sound : w.Sound → w'.Sound

theorem Grows.refl (w : Workspace) : w.Grows [] w :=
  ⟨by simp, rfl, rfl, rfl, id⟩

theorem Grows.trans (h : w.Grows ds w') (h' : w'.Grows es w'') : w.Grows (ds ++ es) w'' where
  documents := by rw [h'.documents, h.documents, List.append_assoc]
  active := h'.active.trans h.active
  cursor := h'.cursor.trans h.cursor
  extensions := h'.extensions.trans h.extensions
  sound := h'.sound ∘ h.sound

/-- Growth leaves the active document alone. -/
theorem Grows.activeDocument_eq_some (h : w.Grows ds w') {d : Document}
    (hd : w.activeDocument = some d) : w'.activeDocument = some d := by
  obtain ⟨i, ha, hi⟩ := Workspace.activeDocument_eq_some.mp hd
  obtain ⟨hl, _⟩ := List.getElem?_eq_some_iff.mp hi
  refine Workspace.activeDocument_eq_some.mpr ⟨i, h.active.trans ha, ?_⟩
  rw [h.documents, List.getElem?_append_left hl, hi]

theorem Grows.activeDocument (h : w.Grows ds w') (hw : w.Sound) :
    w'.activeDocument = w.activeDocument := by
  cases hd : w.activeDocument with
  | some d => exact h.activeDocument_eq_some hd
  | none =>
    rw [(h.sound hw).activeDocument_eq_none, h.active]
    exact hw.activeDocument_eq_none.mp hd

theorem Grows.activeYaml (h : w.Grows ds w') (hw : w.Sound) : w'.activeYaml = w.activeYaml := by
  rw [Workspace.activeYaml, h.activeDocument hw, Workspace.activeYaml]

/-- The announcements that come with new documents. -/
def announcements (ds : List Document) : List Editor.Event :=
  ds.map fun d => .opened d.uri

theorem add_grows {d : Document} (hn : w.indexOf? d.uri = none) : w.Grows [d] (w.add d) :=
  ⟨rfl, rfl, rfl, rfl, fun h => h.add hn⟩

theorem openDocument_grows (w : Workspace) (disk : Files.Disk) (uri : String) :
    ∃ ds, w.Grows ds (w.openDocument disk uri).2 ∧
      (w.openDocument disk uri).2.pending = w.pending ++ announcements ds ∧
      (w.openDocument disk uri).2.outlineChanged = w.outlineChanged ∧ ds.length ≤ 1 := by
  rcases openDocument_cases w disk uri with ⟨i, d, _, _, he⟩ | ⟨hn, ⟨d, rfl, he⟩ | he⟩ <;> rw [he]
  · exact ⟨[], .refl w, by simp [announcements], rfl, Nat.zero_le _⟩
  · exact ⟨[d], add_grows hn, rfl, rfl, Nat.le_refl _⟩
  · exact ⟨[], .refl w, by simp [announcements], rfl, Nat.zero_le _⟩

/-- Messages and notes aside, all that happens to a workspace is that its outline is marked as
built again. -/
def Redrawn (w w' : Workspace) : Prop :=
  ∃ notes message, w' = { w with notes, message, outlineChanged := true }

theorem Redrawn.grows (h : w.Redrawn w') : w.Grows [] w' := by
  obtain ⟨notes, message, rfl⟩ := h
  exact ⟨by simp, rfl, rfl, rfl, fun h => ⟨h.distinct, h.inRange⟩⟩

theorem Redrawn.pending (h : w.Redrawn w') : w'.pending = w.pending := by
  obtain ⟨notes, message, rfl⟩ := h
  rfl

theorem Redrawn.outlineChanged (h : w.Redrawn w') : w'.outlineChanged = true := by
  obtain ⟨notes, message, rfl⟩ := h
  rfl

/-- Whatever the queue says was changed is open. -/
def Informed (w : Workspace) : Prop :=
  ∀ uri, .changed uri ∈ w.pending → uri ∈ w.documents.map Document.uri

theorem informed_of_pending_nil (h : w.pending = []) : w.Informed := by
  intro uri hu
  rw [h] at hu
  cases hu

/-- Moving the focus, opening and closing tell of no change. -/
theorem focus_informed (h : w.pending = []) (index : Nat) : (w.focus index).Informed := by
  rcases focus_cases w index with ⟨he, _⟩ | ⟨_, _, he⟩ <;> rw [he]
  · exact informed_of_pending_nil h
  · intro uri hu
    simp [h] at hu

theorem openFile_informed (h : w.pending = []) (disk : Files.Disk) (path : String) :
    (w.openFile disk path).2.Informed := by
  rcases openFile_cases w disk path with ⟨i, _, he⟩ | ⟨_, ⟨d, _, he⟩ | ⟨message, he⟩⟩ <;> rw [he]
  · exact focus_informed h i
  · intro uri hu
    have hp : (w.add d).pending = [.opened d.uri] := by simp [Workspace.add, push, h]
    change _ ∈ ((w.add d).focus _).pending at hu
    rcases focus_cases (w.add d) w.documents.length with ⟨hf, _⟩ | ⟨_, _, hf⟩ <;> rw [hf] at hu <;>
      simp [hp] at hu
  · exact informed_of_pending_nil h

theorem closeActive_informed (h : w.pending = []) : w.closeActive.Informed := by
  rcases closeActive_cases w with ⟨_, he⟩ | ⟨i, d, _, _, he⟩ <;> rw [he]
  · exact informed_of_pending_nil h
  · intro uri hu
    simp [h] at hu

/-- A commit tells of the active document, which stays open. -/
theorem commit_informed (h : w.pending = []) (text : String) : (w.commit text).Informed := by
  intro uri hu
  rw [map_uri_commit]
  rcases commit_cases w text with ⟨he, _⟩ | ⟨i, d, _, hd, _, he⟩ <;> rw [he] at hu
  · simp [h] at hu
  · have hud : uri = d.uri := by simpa [h] using hu
    rw [hud]
    exact List.mem_map_of_mem (List.mem_of_getElem? hd)

end YamlOutline.Workspace

namespace YamlOutline.Tracker
open Workspace (announcements)
variable (disk : Files.Disk) (t : Tracker) (w : Workspace)

private theorem noteAll_editor (records : List Log.Record) :
    noteAll (Workspace.editor disk) records w = { w with notes := w.notes ++ records } := by
  induction records generalizing w with
  | nil => simp [noteAll]
  | cons r rs ih =>
    rw [noteAll, List.foldl_cons, ← noteAll, ih]
    simp [Workspace.editor]

private theorem refresh_redrawn (notes : List Log.Record) :
    w.Redrawn (t.refresh (Workspace.editor disk) { w with notes }).2 := by
  unfold refresh
  cases t.document with
  | none => exact ⟨notes, w.message, rfl⟩
  | some d =>
    simp only [noteAll_editor]
    cases t.build d with
    | ok roots => exact ⟨_, w.message, rfl⟩
    | error error => exact ⟨_, some error.message, rfl⟩

private theorem bind_refresh_redrawn (d : Document) :
    w.Redrawn (refresh (Workspace.editor disk) (t.bind (Workspace.editor disk) d w).1
      (t.bind (Workspace.editor disk) d w).2).2 :=
  refresh_redrawn disk _ w _

private theorem unbind_refresh_redrawn :
    w.Redrawn (refresh (Workspace.editor disk) (t.unbind (Workspace.editor disk) w).1
      (t.unbind (Workspace.editor disk) w).2).2 := by
  cases ht : t.document with
  | none =>
    simp only [unbind, ht]
    exact refresh_redrawn disk _ w w.notes
  | some d =>
    simp only [unbind, ht]
    exact refresh_redrawn disk _ w _

theorem follow_redrawn : w.Redrawn (t.follow (Workspace.editor disk) w).2 := by
  unfold follow
  cases ha : w.activeDocument with
  | none =>
    simp only [Workspace.editor, ha]
    exact unbind_refresh_redrawn disk t w
  | some d =>
    cases hy : d.isYaml with
    | false =>
      simp only [Workspace.editor, ha, hy, Bool.false_eq_true, if_false]
      exact unbind_refresh_redrawn disk t w
    | true =>
      simp only [Workspace.editor, ha, hy, if_true]
      exact bind_refresh_redrawn disk t w d

/-- The change of the tracked document has it looked up by its name. -/
theorem handle_changed_redrawn {uri : String} (hb : t.isBoundTo uri = true) :
    (w.openDocument disk uri).2.Redrawn (t.handle (Workspace.editor disk) (.changed uri) w).2 := by
  simp only [handle, hb, if_true]
  cases ho : (w.openDocument disk uri).1 with
  | none =>
    simp only [Workspace.editor, ho]
    exact refresh_redrawn disk t _ (w.openDocument disk uri).2.notes
  | some d =>
    simp only [Workspace.editor, ho]
    exact bind_refresh_redrawn disk t _ d

/-- An event is none of the tracker's business, or it ends with the outline built again in a
workspace that may have grown. Only a change lets it grow, and by one document: the change of a
document that is not open any more. -/
theorem handle_cases (event : Editor.Event) :
    event.follows = false ∧ t.handle (Workspace.editor disk) event w = (t, w) ∨
      ∃ ds v, w.Grows ds v ∧ v.pending = w.pending ++ announcements ds ∧
        v.Redrawn (t.handle (Workspace.editor disk) event w).2 ∧
        (∃ d, (t.handle (Workspace.editor disk) event w).1 = t.boundTo d) ∧
        ds.length ≤ [event].countP Editor.Event.isChange := by
  cases event with
  | activeChanged | opened =>
    refine .inr ⟨[], w, .refl w, by simp [announcements], follow_redrawn disk t w, ?_, Nat.zero_le _⟩
    exact ⟨_, follow_fst ..⟩
  | closed uri =>
    simp only [handle]
    split
    · refine .inr ⟨[], w, .refl w, by simp [announcements], unbind_refresh_redrawn disk t w, ?_,
        Nat.zero_le _⟩
      exact ⟨none, refresh_unbind_fst ..⟩
    · exact .inl ⟨rfl, rfl⟩
  | changed uri =>
    by_cases hb : t.isBoundTo uri = true
    · obtain ⟨ds, hg, hp, _, hone⟩ := w.openDocument_grows disk uri
      refine .inr ⟨ds, _, hg, hp, handle_changed_redrawn disk t w hb, ?_, hone⟩
      have hf := handle_changed_fst (Workspace.editor disk) uri t w
      rw [if_pos hb] at hf
      exact ⟨_, hf⟩
    · exact .inl ⟨rfl, by simp only [handle, if_neg hb]⟩

/-- The workspace does not grow with an event that tells of no change, or of a change to a document
that is open. -/
theorem handle_grows_nil {event : Editor.Event}
    (h : ∀ uri, event = .changed uri → uri ∈ w.documents.map Document.uri) :
    w.Grows [] (t.handle (Workspace.editor disk) event w).2 := by
  cases event with
  | activeChanged | opened => exact (follow_redrawn disk t w).grows
  | closed uri =>
    simp only [handle]
    split
    · exact (unbind_refresh_redrawn disk t w).grows
    · exact .refl w
  | changed uri =>
    rcases w.openDocument_cases disk uri with ⟨i, d, _, _, he⟩ | ⟨hn, _⟩
    · by_cases hb : t.isBoundTo uri = true
      · have hr := handle_changed_redrawn disk t w hb
        rw [he] at hr
        exact hr.grows
      · simp only [handle, if_neg hb]
        exact .refl w
    · exact absurd (h uri rfl) (Workspace.indexOf?_eq_none.mp hn)

end YamlOutline.Tracker
