import Mathlib.Data.List.Infix
import Mathlib.Data.List.InsertIdx
import YamlOutline.Proofs.Workspace.Soundness

/-! The queue as a record. Whoever reads nothing but the events that a sequence of operations queued
knows which documents are open, which texts may be others, and whether the focus may be elsewhere. -/

namespace YamlOutline

/-- The names of the open documents after an event, given those before it. -/
def Editor.Event.replay (uris : List String) : Event → List String
  | .opened uri => uris ++ [uri]
  | .closed uri => uris.erase uri
  | .activeChanged | .changed _ => uris

namespace Workspace
open Editor (Event)

/-- What the events queued from `w` to `w'` tell. A document whose closing they do not tell of is open
in both, and they tell of its text if that is another. -/
structure Records (w : Workspace) (events : List Event) (w' : Workspace) : Prop where
  pending : w'.pending = w.pending ++ events
  names : events.foldl Event.replay (w.documents.map Document.uri) = w'.documents.map Document.uri
  kept : ∀ d ∈ w.documents, .closed d.uri ∉ events → ∃ d' ∈ w'.documents,
    d'.uri = d.uri ∧ d'.language = d.language ∧ (d'.text ≠ d.text → .changed d.uri ∈ events)
  focus : .activeChanged ∉ events →
    w'.activeDocument.map Document.uri = w.activeDocument.map Document.uri

variable {w w' w'' : Workspace} {events later : List Event} {d : Document}

/-- Nothing is queued where documents and focus stay as they are. -/
private theorem Records.nothing (hp : w'.pending = w.pending) (hd : w'.documents = w.documents)
    (ha : w'.active = w.active) : w.Records [] w' where
  pending := by rw [hp, List.append_nil]
  names := by rw [hd]; rfl
  kept d hm _ := ⟨d, hd ▸ hm, rfl, rfl, fun h => absurd rfl h⟩
  focus _ := by rw [activeDocument, hd, ha, activeDocument]

private theorem Records.trans (h : w.Records events w') (h' : w'.Records later w'') :
    w.Records (events ++ later) w'' where
  pending := by rw [h'.pending, h.pending, List.append_assoc]
  names := by rw [List.foldl_append, h.names, h'.names]
  kept d hm hn := by
    simp only [List.mem_append, not_or] at hn ⊢
    obtain ⟨d', hm', hu, hl, ht⟩ := h.kept d hm hn.1
    obtain ⟨d'', hm'', hu', hl', ht'⟩ := h'.kept d' hm' (hu.symm ▸ hn.2)
    refine ⟨d'', hm'', hu'.trans hu, hl'.trans hl, fun hne => ?_⟩
    by_cases he : d'.text = d.text
    · exact .inr (hu ▸ ht' (he.symm ▸ hne))
    · exact .inl (ht he)
  focus hn := by
    simp only [List.mem_append, not_or] at hn
    exact (h'.focus hn.2).trans (h.focus hn.1)

/-- No document is open that the events tell was closed. -/
def Gone (events : List Event) (w : Workspace) : Prop :=
  ∀ uri, .closed uri ∈ events → uri ∉ w.documents.map Document.uri

private theorem gone_nil (w : Workspace) : w.Gone [] :=
  fun _ h => absurd h List.not_mem_nil

private theorem focus_records (w : Workspace) (index : Nat) :
    ∃ events, w.Records events (w.focus index) ∧ (w.focus index).Gone events := by
  rcases focus_cases w index with ⟨he, _⟩ | ⟨_, _, he⟩ <;> rw [he]
  · exact ⟨[], .nothing rfl rfl rfl, gone_nil _⟩
  · refine ⟨[.activeChanged], ⟨rfl, rfl, fun d hm _ => ⟨d, hm, rfl, rfl, fun h => absurd rfl h⟩, ?_⟩, ?_⟩
    · exact fun hn => absurd (List.mem_singleton_self _) hn
    · simp [Gone]

/-- A document that is added stands behind the others and does not get the focus. -/
private theorem add_records (h : w.Sound) (hd : w.indexOf? d.uri = none) :
    w.Records [.opened d.uri] (w.add d) where
  pending := rfl
  names := by simp [Event.replay, Workspace.add, push]
  kept d' hm _ := ⟨d', List.mem_append_left _ hm, rfl, rfl, fun h => absurd rfl h⟩
  focus _ := by
    have hs := h.add hd
    cases ha : w.activeDocument with
    | none =>
      have hn : (w.add d).active = none := h.activeDocument_eq_none.mp ha
      rw [hs.activeDocument_eq_none.mpr hn]
    | some a =>
      obtain ⟨i, hi, hdi⟩ := activeDocument_eq_some.mp ha
      obtain ⟨hl, _⟩ := List.getElem?_eq_some_iff.mp hdi
      have ha' : (w.add d).activeDocument = some a := by
        refine activeDocument_eq_some.mpr ⟨i, hi, ?_⟩
        simp only [Workspace.add, push]
        rw [List.getElem?_append_left hl, hdi]
      rw [ha']

private theorem openFile_records (h : w.Sound) (disk : Files.Disk) (path : String) :
    ∃ events, w.Records events (w.openFile disk path).2 ∧ (w.openFile disk path).2.Gone events := by
  rcases openFile_cases w disk path with ⟨i, _, he⟩ | ⟨hn, ⟨d, rfl, he⟩ | ⟨message, he⟩⟩ <;> rw [he]
  · exact w.focus_records i
  · obtain ⟨events, hf, hg⟩ := (w.add d).focus_records w.documents.length
    refine ⟨_, (add_records h hn).trans hf, fun uri hm => hg uri ?_⟩
    simpa using hm
  · exact ⟨[], .nothing rfl rfl rfl, gone_nil _⟩

/-- Names tell documents apart, so that the name of the one closed is the one taken off the list. -/
private theorem Sound.erase_uri (h : w.Sound) {i : Nat} (hd : w.documents[i]? = some d) :
    (w.documents.map Document.uri).erase d.uri = (w.documents.eraseIdx i).map Document.uri := by
  obtain ⟨hi, rfl⟩ := List.getElem?_eq_some_iff.mp hd
  have hi' : i < (w.documents.map Document.uri).length := by simpa using hi
  have hu : (w.documents[i]).uri = (w.documents.map Document.uri)[i] := by simp
  rw [hu, h.distinct.erase_getElem, List.eraseIdx_map]

private theorem closeActive_records (h : w.Sound) :
    ∃ events, w.Records events w.closeActive ∧ w.closeActive.Gone events := by
  rcases closeActive_cases w with ⟨_, he⟩ | ⟨i, d, _, hd, he⟩ <;> rw [he]
  · exact ⟨[], .nothing rfl rfl rfl, gone_nil _⟩
  · have hnames := h.erase_uri hd
    refine ⟨[.closed d.uri, .activeChanged], ⟨rfl, hnames, fun d' hm hn => ?_, ?_⟩, fun uri hm => ?_⟩
    · obtain ⟨j, hj⟩ := List.mem_iff_getElem?.mp hm
      have hne : j ≠ i := by
        rintro rfl
        obtain rfl := Option.some.inj (hj.symm.trans hd)
        simp at hn
      have hm' : d' ∈ w.documents.eraseIdx i := List.mem_eraseIdx_iff_getElem?.mpr ⟨j, hne, hj⟩
      exact ⟨d', hm', rfl, rfl, fun h => absurd rfl h⟩
    · exact fun hn => absurd (by simp) hn
    · obtain rfl : uri = d.uri := by simpa using hm
      simp only [← hnames]
      exact h.distinct.not_mem_erase

private theorem commit_records (w : Workspace) (text : String) :
    ∃ events, w.Records events (w.commit text) ∧ (w.commit text).Gone events := by
  have hnames := map_uri_commit w text
  have hactive := activeDocument_commit w text
  rcases commit_cases w text with ⟨he, _⟩ | ⟨i, d, hi, hd, _, he⟩
  · rw [he]
    exact ⟨[], .nothing rfl rfl rfl, gone_nil _⟩
  · refine ⟨[.changed d.uri], ⟨by rw [he], hnames.symm, fun d' hm _ => ?_, fun _ => ?_⟩, by simp [Gone]⟩
    · obtain ⟨j, hj⟩ := List.mem_iff_getElem?.mp hm
      obtain ⟨hl, _⟩ := List.getElem?_eq_some_iff.mp hj
      by_cases hij : i = j
      · subst hij
        obtain rfl := Option.some.inj (hd.symm.trans hj)
        have hm' : { d with text } ∈ (w.commit text).documents := by
          rw [he]
          exact List.mem_iff_getElem?.mpr ⟨i, List.getElem?_set_self hl⟩
        exact ⟨_, hm', rfl, rfl, fun _ => List.mem_singleton_self _⟩
      · have hm' : d' ∈ (w.commit text).documents := by
          rw [he]
          exact List.mem_iff_getElem?.mpr ⟨j, (List.getElem?_set_ne hij).trans hj⟩
        exact ⟨d', hm', rfl, rfl, fun h => absurd rfl h⟩
    · rw [hactive]
      cases w.activeDocument <;> rfl

private theorem openDocument_records (h : w.Sound) (disk : Files.Disk) (uri : String) :
    ∃ events, w.Records events (w.openDocument disk uri).2 ∧
      (w.openDocument disk uri).2.Gone events := by
  rcases openDocument_cases w disk uri with ⟨i, d, _, _, he⟩ | ⟨hn, ⟨d, rfl, he⟩ | he⟩ <;> rw [he]
  · exact ⟨[], .nothing rfl rfl rfl, gone_nil _⟩
  · exact ⟨_, add_records h hn, by simp [Gone]⟩
  · exact ⟨[], .nothing rfl rfl rfl, gone_nil _⟩

private theorem reveal_records (w : Workspace) (uri : String) (position : Position) :
    ∃ events, w.Records events (w.reveal uri position) ∧ (w.reveal uri position).Gone events := by
  unfold Workspace.reveal
  cases w.indexOf? uri with
  | none => exact ⟨[], .nothing rfl rfl rfl, gone_nil _⟩
  | some i =>
    obtain ⟨events, hf, hg⟩ := w.focus_records i
    exact ⟨events, ⟨hf.pending, hf.names, hf.kept, hf.focus⟩, hg⟩

/-- The step lemma: whatever an operation does is queued. -/
private theorem Operation.run_records (h : w.Sound) (disk : Files.Disk) (op : Operation) :
    ∃ events, w.Records events (op.run disk w) ∧ (op.run disk w).Gone events := by
  cases op with
  | focus index => exact w.focus_records index
  | openFile path => exact openFile_records h disk path
  | closeActive => exact closeActive_records h
  | commit text => exact w.commit_records text
  | openDocument uri => exact openDocument_records h disk uri
  | reveal uri position => exact w.reveal_records uri position

/-! ### Sequences of operations -/

/-- The workspace after some operations, each with the disk as it is by then. -/
def runAll (w : Workspace) (steps : List (Files.Disk × Operation)) : Workspace :=
  steps.foldl (fun w step => step.2.run step.1 w) w

/-- Documents of the name are open before the steps, after each of them, and so at the end. -/
def OpenThroughout (w : Workspace) (steps : List (Files.Disk × Operation)) (uri : String) : Prop :=
  ∀ pre, pre <+: steps → uri ∈ (w.runAll pre).documents.map Document.uri

private theorem runAll_sound (h : w.Sound) (steps : List (Files.Disk × Operation)) :
    (w.runAll steps).Sound := by
  induction steps generalizing w with
  | nil => exact h
  | cons step steps ih => exact ih (Operation.run_sound h step.1 step.2)

/-- The run lemma: the queue tells of all steps, and of no closing of a document open throughout. -/
private theorem runAll_records (h : w.Sound) (steps : List (Files.Disk × Operation)) :
    ∃ events, w.Records events (w.runAll steps) ∧
      ∀ uri, w.OpenThroughout steps uri → .closed uri ∉ events := by
  induction steps generalizing w with
  | nil => exact ⟨[], .nothing rfl rfl rfl, fun _ _ => List.not_mem_nil⟩
  | cons step steps ih =>
    obtain ⟨events, hr, hg⟩ := step.2.run_records h step.1
    obtain ⟨later, hl, hn⟩ := ih (Operation.run_sound h step.1 step.2)
    refine ⟨events ++ later, hr.trans hl, fun uri ho hm => ?_⟩
    rcases List.mem_append.mp hm with hm | hm
    · exact hg uri hm (ho [step] (by simp))
    · exact hn uri (fun pre hp => ho (step :: pre) (List.cons_prefix_cons.mpr ⟨rfl, hp⟩)) hm

/-- From any workspace whose open documents are told apart by their names and whose focus is on one of
them or on none (as with `Sound.ofDocuments`), after any operations on any disks: this is still so, and
what was queued tells of everything that happened. The openings and closings in it lead from the
list of names before to the one after. A document open throughout has its name and tag, and the queue
tells of its text if that is another. If the name of the active document is another, the queue tells
that the focus moved. A file that cannot be read is not opened, and all that comes of trying is the
message. -/
theorem queue_tells_every_change (h : w.Sound) (steps : List (Files.Disk × Operation)) :
    ∀ w', w.runAll steps = w' →
      (w'.documents.map Document.uri).Nodup ∧
      (w'.active = none ∨ ∃ i, w'.active = some i ∧ i < w'.documents.length) ∧
      (∃ events, w'.pending = w.pending ++ events ∧
        events.foldl Event.replay (w.documents.map Document.uri) = w'.documents.map Document.uri ∧
        (∀ d ∈ w.documents, w.OpenThroughout steps d.uri → ∃ d' ∈ w'.documents,
          d'.uri = d.uri ∧ d'.language = d.language ∧ (d'.text ≠ d.text → .changed d.uri ∈ events)) ∧
        (w'.activeDocument.map Document.uri ≠ w.activeDocument.map Document.uri →
          .activeChanged ∈ events)) ∧
      ∀ disk path e, w'.indexOf? path = none → Files.openDocument disk w'.extensions path = .error e →
        w'.openFile disk path =
            (none, { w' with message := some ("Cannot open " ++ path ++ ": " ++ e.message) }) ∧
          w'.openDocument disk path = (none, w') := by
  rintro w' rfl
  have hs := runAll_sound h steps
  obtain ⟨events, hr, hn⟩ := runAll_records h steps
  refine ⟨hs.distinct, ?_, ⟨events, hr.pending, hr.names, fun d hm ho => ?_, fun hne => ?_⟩, ?_⟩
  · cases ha : (w.runAll steps).active with
    | none => exact .inl rfl
    | some i => exact .inr ⟨i, rfl, hs.inRange i ha⟩
  · exact hr.kept d hm (hn d.uri ho)
  · exact Decidable.not_not.mp fun hnot => hne (hr.focus hnot)
  · intro disk path e hi he
    simp only [openFile, openDocument, hi, he, and_self]

/-- The first of two files is edited, the second gets the focus and is closed, and then cannot be opened
again. The first was open throughout, so that the queue tells of its text. -/
theorem queue_tells_every_change_of_edit_and_close :
    (ofDocuments [⟨"a.yaml", "yaml", "k: 1\n"⟩, ⟨"b.yaml", "yaml", "l: 2\n"⟩] []).Sound ∧
      ∃ w', (ofDocuments [⟨"a.yaml", "yaml", "k: 1\n"⟩, ⟨"b.yaml", "yaml", "l: 2\n"⟩] []).runAll
          ([.commit "k: 3\n", .focus 1, .closeActive, .openFile "b.yaml"].map (.ofFolder [] [], ·)) = w' ∧
        w'.documents = [⟨"a.yaml", "yaml", "k: 3\n"⟩] ∧ .changed "a.yaml" ∈ w'.pending := by
  let w := ofDocuments [⟨"a.yaml", "yaml", "k: 1\n"⟩, ⟨"b.yaml", "yaml", "l: 2\n"⟩] []
  let steps : List (Files.Disk × Operation) :=
    [.commit "k: 3\n", .focus 1, .closeActive, .openFile "b.yaml"].map (.ofFolder [] [], ·)
  have hs : w.Sound := .ofDocuments (by decide) []
  have hdocs : (w.runAll steps).documents = [⟨"a.yaml", "yaml", "k: 3\n"⟩] := by decide
  have hopen : w.OpenThroughout steps "a.yaml" := by
    have hall : ∀ pre ∈ steps.inits, "a.yaml" ∈ (w.runAll pre).documents.map Document.uri := by decide
    exact fun pre hpre => hall pre ((List.mem_inits pre steps).mpr hpre)
  refine ⟨hs, _, rfl, hdocs, ?_⟩
  obtain ⟨-, -, ⟨events, hp, -, hk, -⟩, -⟩ := queue_tells_every_change hs steps _ rfl
  obtain ⟨d', hm, -, -, ht⟩ := hk ⟨"a.yaml", "yaml", "k: 1\n"⟩ (by decide) hopen
  rw [hdocs] at hm
  obtain rfl := List.mem_singleton.mp hm
  change _ ∈ (w.runAll steps).pending
  rw [hp]
  exact List.mem_append_right _ (ht (by decide))

end Workspace

end YamlOutline
