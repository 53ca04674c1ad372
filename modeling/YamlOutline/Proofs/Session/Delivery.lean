import YamlOutline.Proofs.Workspace.Growth
import YamlOutline.Session.Basic

/-! Delivering the queue. Whatever was queued, two deliveries empty the queue, and beside the
tracker they touch nothing of the session but what the tracker does to the workspace. -/

namespace YamlOutline.Session
open Workspace (announcements)
variable {s s' s'' : Session}

/-- What delivering events may do: the tracker moves on, the workspace grows, and when the tracker
is another afterwards, the outline is marked as built again. The queue is left open here. -/
structure Delivers (s s' : Session) : Prop where
  frame : s' = { s with tracker := s'.tracker, workspace := s'.workspace }
  source : s'.tracker.source = s.tracker.source
  grows : ∃ ds, s.workspace.Grows ds s'.workspace
  redraws : s'.workspace.outlineChanged = true ∨
    s'.workspace.outlineChanged = s.workspace.outlineChanged ∧ s'.tracker = s.tracker
  upToDate : s.tracker.UpToDate → s'.tracker.UpToDate

private theorem Delivers.refl (s : Session) : s.Delivers s :=
  ⟨rfl, rfl, ⟨[], .refl _⟩, .inr ⟨rfl, rfl⟩, id⟩

private theorem Delivers.trans (h : s.Delivers s') (h' : s'.Delivers s'') : s.Delivers s'' where
  frame := by rw [h'.frame, h.frame]
  source := h'.source.trans h.source
  grows := by
    obtain ⟨ds, hg⟩ := h.grows
    obtain ⟨es, hg'⟩ := h'.grows
    exact ⟨ds ++ es, hg.trans hg'⟩
  redraws := by
    rcases h'.redraws with hr | ⟨hc, ht⟩
    · exact .inl hr
    · rw [hc, ht]
      exact h.redraws
  upToDate := h'.upToDate ∘ h.upToDate

theorem Delivers.activeDocument (h : s.Delivers s') (hs : s.workspace.Sound) :
    s'.workspace.activeDocument = s.workspace.activeDocument := by
  obtain ⟨ds, hg⟩ := h.grows
  exact hg.activeDocument hs

theorem Delivers.activeYaml (h : s.Delivers s') (hs : s.workspace.Sound) :
    s'.workspace.activeYaml = s.workspace.activeYaml := by
  obtain ⟨ds, hg⟩ := h.grows
  exact hg.activeYaml hs

theorem Delivers.sound (h : s.Delivers s') (hs : s.workspace.Sound) : s'.workspace.Sound := by
  obtain ⟨ds, hg⟩ := h.grows
  exact hg.sound hs

/-- One event is delivered as `Delivers` says. It may announce a document, but only if it tells of a
change. -/
theorem handle_delivers (s : Session) (event : Editor.Event) :
    s.Delivers (s.handle event) ∧ ∃ ds,
      (s.handle event).workspace.pending = s.workspace.pending ++ announcements ds ∧
        ds.length ≤ [event].countP Editor.Event.isChange := by
  rcases s.tracker.handle_cases s.disk s.workspace event with
    ⟨_, he⟩ | ⟨ds, v, hg, hp, hr, ⟨d, hd⟩, hone⟩
  · have hs : s.handle event = s := by
      simp only [handle, track, he]
    rw [hs]
    exact ⟨.refl s, [], by simp [announcements], Nat.zero_le _⟩
  · have ht : (s.handle event).tracker = s.tracker.boundTo d := hd
    refine ⟨⟨rfl, ?_, ⟨ds ++ [], hg.trans hr.grows⟩, .inl hr.outlineChanged, fun _ => ?_⟩,
      ds, hr.pending.trans hp, hone⟩
    · rw [ht, Tracker.boundTo_source]
    · rw [ht]
      exact Tracker.boundTo_upToDate ..

theorem foldl_handle_delivers (events : List Editor.Event) (s : Session) :
    s.Delivers (events.foldl handle s) ∧ ∃ ds,
      (events.foldl handle s).workspace.pending = s.workspace.pending ++ announcements ds ∧
        ds.length ≤ events.countP Editor.Event.isChange := by
  induction events generalizing s with
  | nil => exact ⟨.refl s, [], by simp [announcements], Nat.zero_le _⟩
  | cons x xs ih =>
    obtain ⟨hx, ds, hp, hd⟩ := handle_delivers s x
    obtain ⟨hxs, es, hq, he⟩ := ih (s.handle x)
    refine ⟨hx.trans hxs, ds ++ es, ?_, ?_⟩
    · rw [List.foldl_cons, hq, hp]
      simp [announcements]
    · rw [List.length_append, ← List.singleton_append, List.countP_append]
      exact Nat.add_le_add hd he

/-- The session whose queue was taken. -/
def dequeued (s : Session) : Session :=
  { s with workspace.pending := [] }

theorem deliver_eq (s : Session) : s.deliver = s.workspace.pending.foldl handle s.dequeued := rfl

theorem dequeued_delivers (s : Session) : s.Delivers s.dequeued :=
  ⟨rfl, rfl, ⟨[], by simp [dequeued], rfl, rfl, rfl, fun h => ⟨h.distinct, h.inRange⟩⟩,
    .inr ⟨rfl, rfl⟩, id⟩

theorem deliver_delivers (s : Session) : s.Delivers s.deliver :=
  s.dequeued_delivers.trans (foldl_handle_delivers ..).1

/-- What is queued after a delivery are announcements, no more than it told of changes. -/
theorem deliver_pending (s : Session) : ∃ ds, s.deliver.workspace.pending = announcements ds ∧
    ds.length ≤ s.workspace.pending.countP Editor.Event.isChange := by
  obtain ⟨_, ds, hp, hd⟩ := foldl_handle_delivers s.workspace.pending s.dequeued
  exact ⟨ds, by simpa [deliver_eq, dequeued] using hp, hd⟩

private theorem isChange_of_mem_announcements {ds : List Document} {x : Editor.Event}
    (h : x ∈ announcements ds) : x.isChange = false := by
  obtain ⟨d, _, rfl⟩ := List.mem_map.mp h
  rfl

/-- After a delivery of announcements nothing is queued. -/
theorem deliver_deliver_pending (s : Session) : s.deliver.deliver.workspace.pending = [] := by
  obtain ⟨ds, hp, _⟩ := s.deliver_pending
  obtain ⟨es, hq, he⟩ := s.deliver.deliver_pending
  have hnone : s.deliver.workspace.pending.countP Editor.Event.isChange = 0 := by
    rw [hp, List.countP_eq_zero]
    exact fun x hx => Bool.eq_false_iff.mp (isChange_of_mem_announcements hx)
  obtain rfl : es = [] := List.length_eq_zero_iff.mp (Nat.le_zero.mp (hnone ▸ he))
  exact hq

/-- The session after all deliveries of a `sync`. -/
def drain (s : Session) : Session :=
  deliverAll (s.workspace.pending.length + 1) s

theorem deliverAll_of_pending_nil (n : Nat) (h : s.workspace.pending = []) : deliverAll n s = s := by
  cases n with
  | zero => rfl
  | succ n => simp [deliverAll, h]

/-- Draining is delivering as long as something is queued, which takes two deliveries at most. -/
theorem drain_cases (s : Session) :
    s.workspace.pending = [] ∧ s.drain = s ∨
      s.deliver.workspace.pending = [] ∧ s.drain = s.deliver ∨
      s.deliver.deliver.workspace.pending = [] ∧ s.drain = s.deliver.deliver := by
  by_cases h : s.workspace.pending = []
  · exact .inl ⟨h, deliverAll_of_pending_nil _ h⟩
  · obtain ⟨n, hn⟩ := Nat.exists_eq_succ_of_ne_zero (mt List.length_eq_zero_iff.mp h)
    have hd : s.drain = deliverAll (n + 1) s.deliver := by
      simp [drain, hn, deliverAll, h]
    by_cases h' : s.deliver.workspace.pending = []
    · exact .inr (.inl ⟨h', hd.trans (deliverAll_of_pending_nil _ h')⟩)
    · refine .inr (.inr ⟨s.deliver_deliver_pending, hd.trans ?_⟩)
      rw [deliverAll, if_neg (by simpa using h')]
      exact deliverAll_of_pending_nil _ s.deliver_deliver_pending

private theorem drain_pending (s : Session) : s.drain.workspace.pending = [] := by
  rcases s.drain_cases with ⟨hp, he⟩ | ⟨hp, he⟩ | ⟨hp, he⟩ <;> rwa [he]

theorem drain_delivers (s : Session) : s.Delivers s.drain := by
  rcases s.drain_cases with ⟨_, he⟩ | ⟨_, he⟩ | ⟨_, he⟩ <;> rw [he]
  · exact .refl s
  · exact s.deliver_delivers
  · exact s.deliver_delivers.trans s.deliver.deliver_delivers

theorem sync_eq (s : Session) :
    s.sync =
      if s.drain.workspace.outlineChanged then
        { s.drain with workspace.outlineChanged := false }.rebuildRows
      else { s.drain with workspace.outlineChanged := false } := rfl

theorem sync_tracker (s : Session) : s.sync.tracker = s.drain.tracker := by
  rw [sync_eq]
  split <;> rfl

theorem sync_workspace (s : Session) :
    s.sync.workspace = { s.drain.workspace with outlineChanged := false } := by
  rw [sync_eq]
  split <;> rfl

theorem sync_pending (s : Session) : s.sync.workspace.pending = [] := by
  rw [sync_workspace]
  exact s.drain_pending

/-- The rows are listed again with the expansions as they are, or they are left as they were. -/
theorem sync_rows (s : Session) :
    s.sync.rows =
      if s.drain.workspace.outlineChanged then Outline.visibleRows s.expanded s.drain.tracker.roots
      else s.rows := by
  have hr : s.drain.rows = s.rows := by rw [s.drain_delivers.frame]
  have he : s.drain.expanded = s.expanded := by rw [s.drain_delivers.frame]
  rw [sync_eq]
  split
  · simp only [rebuildRows, he]
  · exact hr

/-- Beside tracker, workspace and rows nothing of the session is touched. -/
theorem sync_frame (s : Session) :
    s.sync = { s with
      tracker := s.sync.tracker
      workspace := s.sync.workspace
      rows := s.sync.rows
      row := s.sync.row } := by
  rw [sync_eq]
  split
  · rw [s.drain_delivers.frame]
    rfl
  · rw [s.drain_delivers.frame]

@[simp] theorem sync_view (s : Session) : s.sync.view = s.view := by rw [sync_frame]
@[simp] theorem sync_previous (s : Session) : s.sync.previous = s.previous := by rw [sync_frame]
@[simp] theorem sync_buffer (s : Session) : s.sync.buffer = s.buffer := by rw [sync_frame]
@[simp] theorem sync_file (s : Session) : s.sync.file = s.file := by rw [sync_frame]
@[simp] theorem sync_disk (s : Session) : s.sync.disk = s.disk := by rw [sync_frame]

/-- The selection stays on a row if there is one. -/
theorem sync_row_le (h : s.row ≤ s.rows.length - 1) : s.sync.row ≤ s.sync.rows.length - 1 := by
  rw [sync_eq]
  split
  · exact Nat.min_le_right ..
  · rw [s.drain_delivers.frame]
    exact h

/-! ### Deliveries that open nothing -/

private theorem foldl_handle_documents {events : List Editor.Event}
    (h : ∀ uri, .changed uri ∈ events → uri ∈ s.workspace.documents.map Document.uri) :
    (events.foldl handle s).workspace.documents = s.workspace.documents := by
  induction events generalizing s with
  | nil => rfl
  | cons x xs ih =>
    have hg : s.workspace.Grows [] (s.handle x).workspace :=
      Tracker.handle_grows_nil _ _ _ fun uri he => h uri (he ▸ List.mem_cons_self ..)
    have hx : (s.handle x).workspace.documents = s.workspace.documents := by
      simpa using hg.documents
    rw [List.foldl_cons, ih, hx]
    intro uri hu
    rw [hx]
    exact h uri (List.mem_cons_of_mem x hu)

theorem deliver_documents (h : s.workspace.Informed) :
    s.deliver.workspace.documents = s.workspace.documents :=
  foldl_handle_documents (s := s.dequeued) h

theorem deliver_informed (s : Session) : s.deliver.workspace.Informed := by
  intro uri hu
  obtain ⟨ds, hp, _⟩ := s.deliver_pending
  rw [hp] at hu
  cases isChange_of_mem_announcements hu

/-- Delivering opens nothing as long as the queue tells of open documents only. -/
theorem sync_documents (h : s.workspace.Informed) :
    s.sync.workspace.documents = s.workspace.documents := by
  rw [sync_workspace]
  rcases s.drain_cases with ⟨_, he⟩ | ⟨_, he⟩ | ⟨_, he⟩ <;> rw [he]
  · exact deliver_documents h
  · exact (deliver_documents s.deliver_informed).trans (deliver_documents h)

theorem sync_active (s : Session) : s.sync.workspace.active = s.workspace.active := by
  obtain ⟨ds, hg⟩ := s.drain_delivers.grows
  rw [sync_workspace]
  exact hg.active

theorem sync_activeDocument (h : s.workspace.Informed) :
    s.sync.workspace.activeDocument = s.workspace.activeDocument := by
  rw [Workspace.activeDocument, sync_documents h, sync_active, Workspace.activeDocument]

end YamlOutline.Session
