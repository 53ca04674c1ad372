import YamlOutline.Proofs.Session.Delivery

/-! The loop that delivers events until none are queued. It has no bound of its own: delivering an event
may queue another. Only a change does so, and only to announce one document, and an announcement queues
nothing. So the loop ends after two batches, whatever was queued. -/

namespace YamlOutline
open Workspace (announcements)

/-- What is there once the queue is empty, with the outline drawn again if it was built. -/
def Session.redrawn (s : Session) : Session :=
  if s.workspace.outlineChanged then { s with workspace.outlineChanged := false }.rebuildRows
  else { s with workspace.outlineChanged := false }

namespace Session
variable {s t t' : Session} {batches batches' : List (List Editor.Event)}

/-- The loop: as long as something is queued, all that is queued is taken as one batch and delivered. `t`
is the session after the last of the batches. -/
inductive Drains : Session → List (List Editor.Event) → Session → Prop where
  | done {s : Session} (empty : s.workspace.pending = []) : Drains s [] s
  | batch {s t : Session} {batches : List (List Editor.Event)} (queued : s.workspace.pending ≠ [])
    (rest : Drains s.deliver batches t) : Drains s (s.workspace.pending :: batches) t

/-- The loop goes one way only. -/
private theorem Drains.unique (h : s.Drains batches t) (h' : s.Drains batches' t') :
    batches' = batches ∧ t' = t := by
  induction h generalizing batches' with
  | done empty =>
    cases h' with
    | done => exact ⟨rfl, rfl⟩
    | batch queued => exact absurd empty queued
  | batch queued _ ih =>
    cases h' with
    | done empty => exact absurd empty queued
    | batch _ rest =>
      obtain ⟨rfl, rfl⟩ := ih rest
      exact ⟨rfl, rfl⟩

private theorem Drains.batch_ne_nil (h : s.Drains batches t) : ∀ batch ∈ batches, batch ≠ [] := by
  induction h with
  | done => nofun
  | batch queued _ ih => exact List.forall_mem_cons.mpr ⟨queued, ih⟩

/-- A bound on the number of deliveries that is not reached makes no difference. -/
private theorem Drains.deliverAll_eq (h : s.Drains batches t) {n : Nat} (hn : batches.length ≤ n) :
    deliverAll n s = t := by
  induction h generalizing n with
  | done empty => exact deliverAll_of_pending_nil n empty
  | @batch s t batches queued _ ih =>
    obtain ⟨m, rfl⟩ := Nat.exists_eq_add_of_le' (Nat.le_trans (Nat.succ_pos batches.length) hn)
    rw [deliverAll, if_neg (by simpa using queued)]
    exact ih (Nat.le_of_succ_le_succ hn)

/-- The batches of the loop: what is queued and, if documents are announced meanwhile, these. -/
private theorem exists_drains (s : Session) : ∃ batches t, s.Drains batches t ∧
    batches.length ≤ min 2 (s.workspace.pending.length + 1) ∧
    batches.flatten.length ≤ s.workspace.pending.length + s.workspace.pending.countP Editor.Event.isChange := by
  by_cases hp : s.workspace.pending = []
  · exact ⟨[], s, .done hp, Nat.zero_le _, Nat.zero_le _⟩
  have hpos : 1 ≤ s.workspace.pending.length := List.length_pos_iff.mpr hp
  by_cases hq : s.deliver.workspace.pending = []
  · refine ⟨[s.workspace.pending], s.deliver, .batch hp (.done hq), ?_, ?_⟩
    · simp only [List.length_singleton]
      omega
    · simp
  · obtain ⟨ds, hds, hcount⟩ := s.deliver_pending
    refine ⟨[s.workspace.pending, s.deliver.workspace.pending], s.deliver.deliver,
      .batch hp (.batch hq (.done s.deliver_deliver_pending)), ?_, ?_⟩
    · simp only [List.length_cons, List.length_nil]
      omega
    · simpa [hds, announcements] using hcount

/-- Whatever the session, its files and its queue, the loop that delivers all events ends, and `sync` is
what it leads to with the outline drawn again. It takes two batches at most, none of them empty, and
delivers no more events than are queued and, once more, as many as these tell of changes. -/
theorem sync_drains (s : Session) : ∃ batches t, s.Drains batches t ∧
    (∀ batches' t', s.Drains batches' t' → batches' = batches ∧ t' = t) ∧
    batches.length ≤ 2 ∧ (∀ batch ∈ batches, batch ≠ []) ∧
    batches.flatten.length ≤ s.workspace.pending.length + s.workspace.pending.countP Editor.Event.isChange ∧
    s.sync = t.redrawn := by
  obtain ⟨batches, t, h, hlength, hcount⟩ := s.exists_drains
  have hdrain : s.drain = t := h.deliverAll_eq (Nat.le_trans hlength (Nat.min_le_right _ _))
  refine ⟨batches, t, h, fun _ _ h' => h.unique h', Nat.le_trans hlength (Nat.min_le_left _ _),
    h.batch_ne_nil, hcount, ?_⟩
  rw [sync_eq, hdrain]
  rfl

end Session

end YamlOutline
