import YamlOutline.Proofs.Session.Run

/-! What a delivery opens. Events are stale by the time they are delivered: a change may be told of a
document that is closed by then, and the tracker, as long as it holds that document, asks for it by name.
This is the only way in which a delivery opens a document, and it opens no other and none twice. -/

namespace YamlOutline
open Editor (Event)

/-- A tracker that holds the document of the name still does so after the event. -/
def Editor.Event.leaves (uri : String) (x : Event) : Bool :=
  !x.follows && x != .closed uri

namespace Session
variable {s : Session} {d : Document} {events : List Event}

/-- Delivering the events in order opens `d`: the document that the tracker holds was closed, the events
tell of its change before the tracker may give it up, and its file can be read. -/
def Rereads (s : Session) (events : List Event) (d : Document) : Prop :=
  ∃ tracked, s.tracker.document = some tracked ∧
    .changed tracked.uri ∈ events.takeWhile (Event.leaves tracked.uri) ∧
    tracked.uri ∉ s.workspace.documents.map Document.uri ∧
    Files.openDocument s.disk s.workspace.extensions tracked.uri = .ok d

/-- What the tracker holds is open under its name. -/
def TracksOpen (s : Session) : Prop :=
  ∀ d, s.tracker.document = some d → d.uri ∈ s.workspace.documents.map Document.uri

private theorem TracksOpen.not_rereads (h : s.TracksOpen) : ¬ s.Rereads events d := by
  rintro ⟨tracked, ht, -, hn, -⟩
  exact hn (h tracked ht)

private theorem uri_mem_of_activeYaml {w : Workspace} (h : w.activeYaml = some d) :
    d.uri ∈ w.documents.map Document.uri := by
  obtain ⟨i, _, hi⟩ := Workspace.activeDocument_eq_some.mp (Option.filter_eq_some_iff.mp h).1
  exact List.mem_map_of_mem (List.mem_of_getElem? hi)

private theorem handle_documents_of_follows (s : Session) {x : Event} (hx : x.follows = true) :
    (s.handle x).workspace.documents = s.workspace.documents := by
  have hw : (s.handle x).workspace = (s.tracker.follow (Workspace.editor s.disk) s.workspace).2 := by
    simp only [handle, track, Tracker.handle_of_follows hx]
  rw [hw]
  simpa using (s.tracker.follow_redrawn s.disk s.workspace).grows.documents

/-- After looking up the active document the tracker holds that one or none. -/
private theorem handle_tracksOpen_of_follows (s : Session) {x : Event} (hx : x.follows = true) :
    (s.handle x).TracksOpen := by
  intro d hd
  rw [s.handle_of_follows_document hx] at hd
  rw [s.handle_documents_of_follows hx]
  exact uri_mem_of_activeYaml hd

private theorem handle_closed (s : Session) (uri : String) :
    (s.handle (.closed uri)).workspace.documents = s.workspace.documents ∧
      (s.handle (.closed uri)).tracker.document =
        if s.tracker.isBoundTo uri then none else s.tracker.document := by
  have hg : s.workspace.Grows [] (s.handle (.closed uri)).workspace :=
    Tracker.handle_grows_nil s.disk s.tracker s.workspace (show ∀ u, Event.closed uri = .changed u → _ from nofun)
  have ht : (s.handle (.closed uri)).tracker = _ :=
    Tracker.handle_closed_fst (Workspace.editor s.disk) uri s.tracker s.workspace
  refine ⟨by simpa using hg.documents, ?_⟩
  rw [ht]
  split <;> rfl

private theorem handle_closed_of_other {uri : String} (h : s.tracker.isBoundTo uri = false) :
    s.handle (.closed uri) = s := by
  simp [handle, track, Tracker.handle, h]

private theorem handle_changed_of_other {uri : String} (h : s.tracker.isBoundTo uri = false) :
    s.handle (.changed uri) = s := by
  simp [handle, track, Tracker.handle, h]

/-- A change of the tracked document has it looked up, and read from disk if it is not open. -/
private theorem handle_changed_of_bound {uri : String} (h : s.tracker.isBoundTo uri = true) :
    (s.handle (.changed uri)).workspace.documents = (s.workspace.openDocument s.disk uri).2.documents ∧
      (s.handle (.changed uri)).workspace.extensions = s.workspace.extensions ∧
      (s.handle (.changed uri)).tracker.document =
        (s.workspace.openDocument s.disk uri).1.or s.tracker.document := by
  have hr : (s.workspace.openDocument s.disk uri).2.Redrawn (s.handle (.changed uri)).workspace :=
    Tracker.handle_changed_redrawn s.disk s.tracker s.workspace h
  have ht : (s.handle (.changed uri)).tracker = _ :=
    Tracker.handle_changed_fst (Workspace.editor s.disk) uri s.tracker s.workspace
  obtain ⟨ds, hg, -, -⟩ := s.workspace.openDocument_grows s.disk uri
  refine ⟨by simpa using hr.grows.documents, hr.grows.extensions.trans hg.extensions, ?_⟩
  rw [ht, if_pos h]
  rfl

private theorem isBoundTo_eq_true {t : Tracker} {uri : String} :
    t.isBoundTo uri = true ↔ ∃ d, t.document = some d ∧ d.uri = uri := by
  cases h : t.document <;> simp [Tracker.isBoundTo, h]

/-- A tracker that holds an open document opens none, whatever it is told. -/
private theorem TracksOpen.handle (h : s.TracksOpen) (x : Event) :
    (s.handle x).TracksOpen ∧ (s.handle x).workspace.documents = s.workspace.documents := by
  cases x with
  | activeChanged | opened =>
    exact ⟨s.handle_tracksOpen_of_follows rfl, s.handle_documents_of_follows rfl⟩
  | closed uri =>
    obtain ⟨hd, ht⟩ := s.handle_closed uri
    refine ⟨fun d hm => ?_, hd⟩
    rw [ht] at hm
    rw [hd]
    split at hm
    · cases hm
    · exact h d hm
  | changed uri =>
    by_cases hb : s.tracker.isBoundTo uri = true
    · obtain ⟨hd, -, ht⟩ := handle_changed_of_bound hb
      obtain ⟨tracked, htracked, rfl⟩ := isBoundTo_eq_true.mp hb
      have hm := h tracked htracked
      rcases s.workspace.openDocument_cases s.disk tracked.uri with ⟨i, d, hi, hdi, he⟩ | ⟨hn, -⟩
      · rw [he] at hd ht
        refine ⟨fun d' hd' => ?_, hd⟩
        obtain rfl := Option.some.inj (ht.symm.trans hd')
        rw [hd]
        exact List.mem_map_of_mem (List.mem_of_getElem? hdi)
      · exact absurd hm (Workspace.indexOf?_eq_none.mp hn)
    · rw [handle_changed_of_other (by simpa using hb)]
      exact ⟨h, rfl⟩

private theorem TracksOpen.foldl_handle (h : s.TracksOpen) (events : List Event) :
    (events.foldl Session.handle s).workspace.documents = s.workspace.documents := by
  induction events generalizing s with
  | nil => rfl
  | cons x xs ih => exact (ih (h.handle x).1).trans (h.handle x).2

/-- The first event by which the tracker may give its document up leaves nothing to be read. -/
private theorem not_rereads_of_leaves {tracked : Document} {x : Event}
    (ht : s.tracker.document = some tracked)
    (hx : x.leaves tracked.uri = false) : ¬ s.Rereads (x :: events) d := by
  rintro ⟨t, ht', hm, -⟩
  obtain rfl := Option.some.inj (ht.symm.trans ht')
  simp [hx] at hm

/-- An event that is nothing to the tracker makes no difference. -/
private theorem rereads_cons_iff {tracked : Document} {x : Event}
    (ht : s.tracker.document = some tracked)
    (hx : x.leaves tracked.uri = true) (hne : x ≠ .changed tracked.uri) :
    s.Rereads (x :: events) d ↔ s.Rereads events d := by
  refine exists_congr fun t => and_congr_right fun ht' => ?_
  obtain rfl := Option.some.inj (ht.symm.trans ht')
  simp [hx, Ne.symm hne]

/-- What is open after the events were delivered in order: what was open, and behind it the document that
they have read again. -/
structure Explained (s : Session) (events : List Event) : Prop where
  rereads : ∀ d, s.Rereads events d →
    (events.foldl Session.handle s).workspace.documents = s.workspace.documents ++ [d]
  stays : (∀ d, ¬ s.Rereads events d) →
    (events.foldl Session.handle s).workspace.documents = s.workspace.documents

namespace Explained
variable {tracked : Document} {x : Event}

private theorem of_tracksOpen (h : s.TracksOpen) (events : List Event) : s.Explained events :=
  ⟨fun _ hr => absurd hr h.not_rereads, fun _ => h.foldl_handle events⟩

/-- Once the tracker gave its document up there is nothing more to come. -/
private theorem given_up (ht : s.tracker.document = some tracked)
    (hx : x.leaves tracked.uri = false)
    (ho : (s.handle x).TracksOpen) (hd : (s.handle x).workspace.documents = s.workspace.documents) :
    s.Explained (x :: events) :=
  ⟨fun _ hr => absurd hr (not_rereads_of_leaves ht hx), fun _ => (ho.foldl_handle events).trans hd⟩

private theorem aside (ht : s.tracker.document = some tracked) (hx : x.leaves tracked.uri = true)
    (hne : x ≠ .changed tracked.uri) (he : s.handle x = s) (h : s.Explained events) :
    s.Explained (x :: events) := by
  constructor
  · intro d hr
    rw [List.foldl_cons, he]
    exact h.rereads d ((rereads_cons_iff ht hx hne).mp hr)
  · intro hn
    rw [List.foldl_cons, he]
    exact h.stays fun d hr => hn d ((rereads_cons_iff ht hx hne).mpr hr)

/-- The change of a closed document that is still tracked: its file is read, and found or not. -/
private theorem reread (ht : s.tracker.document = some tracked)
    (hn : tracked.uri ∉ s.workspace.documents.map Document.uri)
    (h : (s.handle (.changed tracked.uri)).Explained events) :
    s.Explained (.changed tracked.uri :: events) := by
  have hb : s.tracker.isBoundTo tracked.uri = true := isBoundTo_eq_true.mpr ⟨tracked, ht, rfl⟩
  obtain ⟨hd, hx, htracker⟩ := handle_changed_of_bound hb
  have hi := Workspace.indexOf?_eq_none.mpr hn
  cases hread : Files.openDocument s.disk s.workspace.extensions tracked.uri with
  | ok d =>
    have ho : s.workspace.openDocument s.disk tracked.uri = (some d, s.workspace.add d) := by
      simp [Workspace.openDocument, hi, hread]
    rw [ho] at hd htracker
    have hopen : (s.handle (.changed tracked.uri)).TracksOpen := by
      intro e he
      obtain rfl := Option.some.inj (htracker.symm.trans he)
      rw [hd]
      simp [Workspace.add, Workspace.push]
    have hr : s.Rereads (.changed tracked.uri :: events) d :=
      ⟨tracked, ht, by simp [Event.leaves, Event.follows], hn, hread⟩
    refine ⟨?_, fun hnone => absurd hr (hnone d)⟩
    rintro e ⟨t, ht', -, -, he⟩
    obtain rfl := Option.some.inj (ht.symm.trans ht')
    obtain rfl := Except.ok.inj (hread.symm.trans he)
    exact (hopen.foldl_handle events).trans hd
  | error e =>
    have ho : s.workspace.openDocument s.disk tracked.uri = (none, s.workspace) := by
      simp [Workspace.openDocument, hi, hread]
    rw [ho] at hd htracker
    -- The tracker keeps the document that it holds, and the file cannot be read later either.
    have hnone (v : Session) (hdisk : v.disk = s.disk)
        (hv : v.workspace.extensions = s.workspace.extensions)
        (htv : v.tracker.document = some tracked) (es : List Event) (d : Document) :
        ¬ v.Rereads es d := by
      rintro ⟨t, ht', -, -, hok⟩
      obtain rfl := Option.some.inj (htv.symm.trans ht')
      rw [hdisk, hv, hread] at hok
      cases hok
    exact ⟨fun d hr => absurd hr (hnone s rfl rfl ht _ d),
      fun _ => (h.stays (hnone (s.handle _) rfl hx (htracker.trans ht) events)).trans hd⟩

end Explained

/-- One round of deliveries, whatever is delivered. -/
private theorem explained (events : List Event) (s : Session) : s.Explained events := by
  induction events generalizing s with
  | nil => exact ⟨fun d ⟨_, _, hm, _⟩ => absurd hm List.not_mem_nil, fun _ => rfl⟩
  | cons x xs ih =>
    by_cases ho : s.TracksOpen
    · exact .of_tracksOpen ho (x :: xs)
    obtain ⟨tracked, ht, hn⟩ : ∃ d, s.tracker.document = some d ∧
        d.uri ∉ s.workspace.documents.map Document.uri := by
      simpa [TracksOpen] using ho
    have hb {uri : String} (hu : tracked.uri ≠ uri) : s.tracker.isBoundTo uri = false := by
      simp [Tracker.isBoundTo, ht, hu]
    cases x with
    | activeChanged | opened =>
      exact .given_up ht rfl (s.handle_tracksOpen_of_follows rfl) (s.handle_documents_of_follows rfl)
    | closed uri =>
      by_cases hu : tracked.uri = uri
      · obtain ⟨hd, hnone⟩ := s.handle_closed uri
        rw [if_pos (isBoundTo_eq_true.mpr ⟨tracked, ht, hu⟩)] at hnone
        refine .given_up ht (by simp [Event.leaves, hu]) (fun d h => ?_) hd
        rw [hnone] at h
        cases h
      · refine .aside ht ?_ (fun h => by cases h) (handle_closed_of_other (hb hu)) (ih s)
        simp [Event.leaves, Event.follows, Ne.symm hu]
    | changed uri =>
      by_cases hu : tracked.uri = uri
      · exact hu ▸ .reread ht hn (ih _)
      · refine .aside ht rfl (fun h => hu ?_) (handle_changed_of_other (hb hu)) (ih s)
        cases h
        rfl

/-- All rounds of a `sync`: what the first one reads again comes back, and nothing else. -/
private theorem sync_rereads (s : Session) :
    (∀ d, s.Rereads s.workspace.pending d →
        s.sync.workspace.documents = s.workspace.documents ++ [d]) ∧
      ((∀ d, ¬ s.Rereads s.workspace.pending d) →
        s.sync.workspace.documents = s.workspace.documents) := by
  have hex : s.dequeued.Explained s.workspace.pending := explained _ _
  have hone : s.deliver.workspace.documents = s.sync.workspace.documents ∨ s.workspace.pending = [] := by
    rw [sync_workspace]
    rcases s.drain_cases with ⟨hp, _⟩ | ⟨_, he⟩ | ⟨_, he⟩
    · exact .inr hp
    · exact .inl (by rw [he])
    · exact .inl (by rw [he, deliver_documents s.deliver_informed])
  rcases hone with hd | hp
  · rw [← hd, deliver_eq]
    exact ⟨hex.rereads, hex.stays⟩
  · refine ⟨fun d ⟨_, _, hm, _⟩ => ?_, fun _ => ?_⟩
    · rw [hp] at hm
      cases hm
    · exact sync_documents (Workspace.informed_of_pending_nil hp)

private theorem run_workspace_tracker (s : Session) (ops : List Workspace.Operation) :
    (s.run (ops.map .workspace)).tracker = s.tracker := by
  induction ops generalizing s with
  | nil => rfl
  | cons op ops ih => exact ih _

/-- Some documents are open and the first outline is shown. Whatever is done to the workspace before the
next delivery, that delivery leaves the focus where it is and closes nothing. It opens a document only if
the one tracked from the start on is closed by then, its change was told before anything by which the
tracker gives it up, and its file can be read; then that file comes back behind the others. -/
theorem delivery_keeps_documents_iff (disk : Files.Disk) (tracker : Tracker) (documents : List Document)
    (extensions : List String) (h : (documents.map Document.uri).Nodup)
    (ops : List Workspace.Operation) :
    ∀ s, (started disk tracker documents extensions).run (ops.map .workspace) = s →
      s.tracker.document = (started disk tracker documents extensions).workspace.activeYaml ∧
      s.sync.workspace.active = s.workspace.active ∧
      (s.sync.workspace.documents = s.workspace.documents ↔ ∀ d, ¬ s.Rereads s.workspace.pending d) ∧
      ∀ d, s.Rereads s.workspace.pending d →
        s.sync.workspace.documents = s.workspace.documents ++ [d] := by
  rintro s rfl
  have hi := started_inStep h disk tracker extensions
  obtain ⟨hr, hk⟩ := sync_rereads
    ((started disk tracker documents extensions).run (ops.map .workspace))
  refine ⟨?_, sync_active _, ⟨fun he d hd => ?_, hk⟩, hr⟩
  · rw [run_workspace_tracker]
    exact (mirrors_of_quiet hi (sync_pending _)).document
  · rw [hr d hd] at he
    simp at he

/-- The first of two files is edited and closed. It stays closed, as there is no file of its name. -/
theorem delivery_keeps_documents_without_file :
    ([⟨"a.yaml", "yaml", "k: 1\n"⟩, ⟨"b.yaml", "yaml", "l: 2\n"⟩].map Document.uri).Nodup ∧
      ∃ s, (started (.ofFolder [] []) {} [⟨"a.yaml", "yaml", "k: 1\n"⟩, ⟨"b.yaml", "yaml", "l: 2\n"⟩] []).run
          ([.commit "k: 2\n", .closeActive].map .workspace) = s ∧
        s.sync.workspace.documents = [⟨"b.yaml", "yaml", "l: 2\n"⟩] := by
  let a : Document := ⟨"a.yaml", "yaml", "k: 1\n"⟩
  let b : Document := ⟨"b.yaml", "yaml", "l: 2\n"⟩
  let s := (started (.ofFolder [] []) {} [a, b] []).run ([.commit "k: 2\n", .closeActive].map .workspace)
  have h : ([a, b].map Document.uri).Nodup := by decide
  have hdocuments : s.workspace.documents = [b] := by decide
  have hactive : (started (.ofFolder [] []) {} [a, b] []).workspace.activeYaml = some a := by decide
  have hread : (Files.openDocument s.disk s.workspace.extensions a.uri).toOption = none := by decide
  obtain ⟨ht, -, hk, -⟩ := delivery_keeps_documents_iff (.ofFolder [] []) {} [a, b] [] h
    [.commit "k: 2\n", .closeActive] s rfl
  have hnone (d : Document) : ¬ s.Rereads s.workspace.pending d := by
    rintro ⟨tracked, htracked, -, -, hd⟩
    obtain rfl := Option.some.inj (htracked.symm.trans (ht.trans hactive))
    cases hread.symm.trans (congrArg Except.toOption hd)
  exact ⟨h, s, rfl, (hk.mpr hnone).trans hdocuments⟩

/-- A file is edited and closed before the next delivery. With the delivery it is open again, as it is on
the disk, and without the focus. -/
theorem closed_document_comes_back :
    ([⟨"a.yaml", "yaml", "k: 1\n"⟩].map Document.uri).Nodup ∧
      ∃ s, (started (.ofFolder [] [.mk "a.yaml" (.file (.text "k: 1\n"))]) {}
            [⟨"a.yaml", "yaml", "k: 1\n"⟩] ["yaml"]).run
          ([.commit "k: 2\n", .closeActive].map .workspace) = s ∧
        s.workspace.documents = [] ∧ s.sync.workspace.documents = [⟨"a.yaml", "yaml", "k: 1\n"⟩] ∧
          s.sync.workspace.active = none :=
  ⟨by decide, _, rfl, by decide, by decide, by decide⟩

end Session

end YamlOutline
