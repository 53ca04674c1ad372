import YamlOutline.Proofs.Session.Delivery

/-! The outline mirrors the active document. Between deliveries the tracker may lag behind, but what
is queued always leads it back: every event before the last one that has the active document looked
up is made good by that one, and those behind it only tell of the active document's text. -/

namespace YamlOutline
open Editor (Event)

namespace Workspace

/-- The event tells that the text of the active document changed. -/
def TellsOfActive (w : Workspace) (x : Event) : Prop :=
  ∃ d, w.activeDocument = some d ∧ x = .changed d.uri

/-- Delivering the events brings a tracker of `tracked` to the active document if that is YAML, and
to none otherwise. Without a look-up in the queue the tracker must have the right name already, and
with nothing queued the right document. -/
inductive Leads (w : Workspace) (tracked : Option Document) : List Event → Prop where
  | there (h : tracked = w.activeYaml) : w.Leads tracked []
  | changes (events : List Event) (hn : events ≠ [])
      (name : tracked.map Document.uri = w.activeYaml.map Document.uri)
      (tell : ∀ x ∈ events, w.TellsOfActive x) : w.Leads tracked events
  | follows (events : List Event) (x : Event) (rest : List Event) (hx : x.follows = true)
      (tell : ∀ y ∈ rest, w.TellsOfActive y) : w.Leads tracked (events ++ x :: rest)

variable {w w' : Workspace} {tracked : Option Document} {events : List Event}

private theorem map_uri_activeYaml_of_text {d : Document} {text : String}
    (hb : w.activeDocument = some d)
    (ha : w'.activeDocument = some { d with text }) :
    w'.activeYaml.map Document.uri = w.activeYaml.map Document.uri := by
  simp only [activeYaml, hb, ha, Option.filter_some, Document.isYaml]
  by_cases hl : (d.language == Document.yamlLanguage) = true <;> simp [hl]

private theorem tellsOfActive_congr
    (h : w'.activeDocument.map Document.uri = w.activeDocument.map Document.uri)
    {x : Event} (hx : w.TellsOfActive x) : w'.TellsOfActive x := by
  obtain ⟨d, hd, rfl⟩ := hx
  rw [hd] at h
  obtain ⟨d', hd', hu⟩ := Option.map_eq_some_iff.mp h
  exact ⟨d', hd', by rw [hu]⟩

/-- The same queue serves as long as the active document is the same. -/
theorem Leads.congr (h : w.Leads tracked events) (ha : w'.activeDocument = w.activeDocument) :
    w'.Leads tracked events := by
  have hy : w'.activeYaml = w.activeYaml := by rw [activeYaml, ha, activeYaml]
  have ht : ∀ x, w.TellsOfActive x → w'.TellsOfActive x :=
    fun x => tellsOfActive_congr (by rw [ha])
  cases h with
  | there h => exact .there (h.trans hy.symm)
  | changes _ hn name tell => exact .changes _ hn (by rw [hy, name]) fun x hx => ht x (tell x hx)
  | follows es x rest hx tell => exact .follows es x rest hx fun y hy => ht y (tell y hy)

/-- Every announced step leaves a queue that leads to the active document as it is then. -/
theorem Leads.announced (h : w.Leads tracked w.pending) (hw : w.Announced w') :
    w'.Leads tracked w'.pending := by
  cases hw with
  | quiet hp ha => exact hp ▸ h.congr ha
  | follows es x hx hp =>
    rw [hp, ← List.append_assoc]
    exact .follows _ x [] hx (by simp)
  | changed d text hb ha hp =>
    have hu : w'.activeDocument.map Document.uri = w.activeDocument.map Document.uri := by
      rw [hb, ha]
      rfl
    have hnew : w'.TellsOfActive (.changed d.uri) := ⟨_, ha, rfl⟩
    have hname := map_uri_activeYaml_of_text hb ha
    rw [hp]
    generalize w.pending = queued at h
    cases h with
    | there h => exact .changes _ (by simp) (by rw [h, hname]) (by simpa using hnew)
    | changes _ _ name tell =>
      refine .changes _ (by simp) (name.trans hname.symm) fun x hx => ?_
      rcases List.mem_append.mp hx with hx | hx
      · exact tellsOfActive_congr hu (tell x hx)
      · exact List.mem_singleton.mp hx ▸ hnew
    | follows es x rest hx tell =>
      rw [List.append_assoc, List.cons_append]
      refine .follows es x _ hx fun y hy => ?_
      rcases List.mem_append.mp hy with hy | hy
      · exact tellsOfActive_congr hu (tell y hy)
      · exact List.mem_singleton.mp hy ▸ hnew

/-- Announcements lead to the active document, given that they are not even needed. -/
private theorem leads_announcements (h : tracked = w.activeYaml) (ds : List Document) :
    w.Leads tracked (announcements ds) := by
  rcases List.eq_nil_or_concat ds with rfl | ⟨es, d, rfl⟩
  · exact .there h
  · have he : announcements (es ++ [d]) = announcements es ++ .opened d.uri :: [] := by
      simp [announcements]
    rw [List.concat_eq_append, he]
    exact .follows _ _ [] rfl (by simp)

end Workspace

/-- The tracker is where it should be, or the queue leads it there. -/
structure Tracker.InStep (t : Tracker) (w : Workspace) : Prop where
  sound : w.Sound
  upToDate : t.UpToDate
  leads : w.Leads t.document w.pending

namespace Session
variable {s : Session}

/-- The session shows the outline of the active document: nothing is queued, and the tracker has
that document if it is YAML and none otherwise, with the outline that belongs to it. -/
structure Mirrors (s : Session) : Prop where
  quiet : s.workspace.pending = []
  document : s.tracker.document = s.workspace.activeYaml
  roots : s.tracker.roots = s.tracker.outlineFor s.workspace.activeYaml

theorem handle_of_follows_document (s : Session) {x : Event} (hx : x.follows = true) :
    (s.handle x).tracker.document = s.workspace.activeYaml := by
  have ht : (s.handle x).tracker = s.tracker.boundTo s.workspace.activeYaml := by
    simp only [handle, track, Tracker.handle_of_follows hx]
    exact Tracker.follow_fst ..
  rw [ht, Tracker.boundTo_document]

/-- A change of the active document's text is taken over by a tracker that has its name. -/
private theorem handle_of_tellsOfActive_document (hw : s.workspace.Sound) {x : Event}
    (hx : s.workspace.TellsOfActive x)
    (hn : s.tracker.document.map Document.uri = s.workspace.activeYaml.map Document.uri) :
    (s.handle x).tracker.document = s.workspace.activeYaml := by
  obtain ⟨d, hd, rfl⟩ := hx
  have ht : (s.handle (.changed d.uri)).tracker = _ :=
    Tracker.handle_changed_fst (Workspace.editor s.disk) d.uri s.tracker s.workspace
  rw [ht]
  cases hy : d.isYaml with
  | false =>
    have ha : s.workspace.activeYaml = none := by simp [Workspace.activeYaml, hd, hy]
    have hnone : s.tracker.document = none := by simpa [ha] using hn
    simp [Tracker.isBoundTo, hnone, ha]
  | true =>
    have ha : s.workspace.activeYaml = some d := by simp [Workspace.activeYaml, hd, hy]
    obtain ⟨i, _, hi⟩ := Workspace.activeDocument_eq_some.mp hd
    have ho : (s.workspace.openDocument s.disk d.uri).1 = some d := by
      simp [Workspace.openDocument, hw.indexOf?_uri hi, hi]
    rw [ha] at hn
    obtain ⟨d', hd', hu⟩ := Option.map_eq_some_iff.mp hn
    have hb : s.tracker.isBoundTo d.uri = true := by simp [Tracker.isBoundTo, hd', hu]
    simp [hb, ha, Workspace.editor, ho]

private theorem foldl_handle_of_tellsOfActive {events : List Event} (hw : s.workspace.Sound)
    (hd : s.tracker.document = s.workspace.activeYaml)
    (ht : ∀ x ∈ events, s.workspace.TellsOfActive x) :
    (events.foldl handle s).tracker.document = s.workspace.activeYaml := by
  induction events generalizing s with
  | nil => exact hd
  | cons x xs ih =>
    obtain ⟨hx, _⟩ := s.handle_delivers x
    have hn := handle_of_tellsOfActive_document hw (ht x (by simp)) (by rw [hd])
    rw [List.foldl_cons, ← hx.activeYaml hw]
    refine ih (hx.sound hw) (hn.trans (hx.activeYaml hw).symm) fun y hy => ?_
    exact Workspace.tellsOfActive_congr (by rw [hx.activeDocument hw]) (ht y (by simp [hy]))

/-- Delivering a queue that leads to the active document gets there. -/
theorem deliver_document (h : s.tracker.InStep s.workspace) :
    s.deliver.tracker.document = s.workspace.activeYaml := by
  have hw : s.dequeued.workspace.Sound := s.dequeued_delivers.sound h.sound
  have hl := h.leads
  rw [deliver_eq]
  generalize s.workspace.pending = queued at hl
  -- The last look-up in the queue makes good whatever was delivered before it; from there on the
  -- tracker has the active document, and every event left only has it read again.
  cases hl with
  | there h => exact h
  | changes _ hn name tell =>
    cases queued with
    | nil => exact absurd rfl hn
    | cons x xs =>
      obtain ⟨hx, _⟩ := s.dequeued.handle_delivers x
      have hd := handle_of_tellsOfActive_document hw (tell x (by simp)) name
      rw [List.foldl_cons]
      refine (foldl_handle_of_tellsOfActive (hx.sound hw) (hd.trans (hx.activeYaml hw).symm) ?_).trans
        (hx.activeYaml hw)
      exact fun y hy => Workspace.tellsOfActive_congr (by rw [hx.activeDocument hw]; rfl)
        (tell y (by simp [hy]))
  | follows es x rest hx tell =>
    rw [List.foldl_append, List.foldl_cons]
    obtain ⟨he, _⟩ := foldl_handle_delivers es s.dequeued
    generalize es.foldl handle s.dequeued = r at he
    obtain ⟨hr, _⟩ := r.handle_delivers x
    have hd := r.handle_of_follows_document hx
    refine (foldl_handle_of_tellsOfActive (hr.sound (he.sound hw))
      (hd.trans (hr.activeYaml (he.sound hw)).symm) ?_).trans ?_
    · refine fun y hy => Workspace.tellsOfActive_congr ?_ (tell y hy)
      rw [hr.activeDocument (he.sound hw), he.activeDocument hw]
      rfl
    · rw [hr.activeYaml (he.sound hw), he.activeYaml hw]
      rfl

private theorem deliver_inStep (h : s.tracker.InStep s.workspace) :
    s.deliver.tracker.InStep s.deliver.workspace := by
  have hd := s.deliver_delivers
  obtain ⟨ds, hp, _⟩ := s.deliver_pending
  refine ⟨hd.sound h.sound, hd.upToDate h.upToDate, ?_⟩
  rw [hp]
  exact Workspace.leads_announcements ((deliver_document h).trans (hd.activeYaml h.sound).symm) ds

private theorem drain_inStep (h : s.tracker.InStep s.workspace) :
    s.drain.tracker.InStep s.drain.workspace := by
  rcases s.drain_cases with ⟨_, he⟩ | ⟨_, he⟩ | ⟨_, he⟩ <;> rw [he]
  · exact h
  · exact deliver_inStep h
  · exact deliver_inStep (deliver_inStep h)

/-- A tracker in step with nothing queued mirrors the active document. -/
theorem mirrors_of_quiet (h : s.tracker.InStep s.workspace) (hp : s.workspace.pending = []) :
    s.Mirrors := by
  have hd : s.tracker.document = s.workspace.activeYaml := by
    have hl := h.leads
    rw [hp] at hl
    generalize hq : ([] : List Event) = queued at hl
    cases hl with
    | there h => exact h
    | changes _ hn _ _ => exact absurd hq.symm hn
    | follows es x rest _ _ => simp at hq
  exact ⟨hp, hd, hd ▸ h.upToDate⟩

theorem sync_inStep (h : s.tracker.InStep s.workspace) :
    s.sync.tracker.InStep s.sync.workspace := by
  obtain ⟨hs, hu, hl⟩ := drain_inStep h
  rw [sync_tracker, sync_workspace]
  exact ⟨⟨hs.distinct, hs.inRange⟩, hu, hl.congr rfl⟩

theorem sync_mirrors (h : s.tracker.InStep s.workspace) : s.sync.Mirrors :=
  mirrors_of_quiet (sync_inStep h) s.sync_pending

end Session

end YamlOutline
