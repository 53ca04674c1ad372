import Mathlib.Data.List.Nodup
import YamlOutline.Proofs.Tracker.Refresh
import YamlOutline.Workspace

/-! What every workspace keeps: no two open documents share a name, and the focus is on one of them
or on none. Opening by name, closing and committing are the only ways to change the list. -/

namespace YamlOutline

/-- A document read from disk is named as its path is written. -/
private theorem Files.openDocument_uri {disk : Files.Disk} {extensions : List String}
    {path : String}
    {d : Document} (h : Files.openDocument disk extensions path = .ok d) : d.uri = path := by
  unfold Files.openDocument at h
  cases hr : disk.read path with
  | error e => simp [hr, bind, Except.bind] at h
  | ok t =>
    simp only [hr, bind, Except.bind, pure, Except.pure, Except.ok.injEq] at h
    rw [← h]

namespace Workspace
open Editor (Event)

/-- Names tell the open documents apart, and the focus is on an open document if on any. -/
structure Sound (w : Workspace) : Prop where
  distinct : (w.documents.map Document.uri).Nodup
  inRange : ∀ i, w.active = some i → i < w.documents.length

/-- The document with the focus, if it is one that has an outline. -/
def activeYaml (w : Workspace) : Option Document :=
  w.activeDocument.filter Document.isYaml

variable {w : Workspace} {d : Document}

theorem activeDocument_eq_some :
    w.activeDocument = some d ↔ ∃ i, w.active = some i ∧ w.documents[i]? = some d := by
  simp [activeDocument, Option.bind_eq_some_iff]

theorem Sound.activeDocument_eq_none (h : w.Sound) : w.activeDocument = none ↔ w.active = none := by
  constructor
  · intro hd
    cases ha : w.active with
    | none => rfl
    | some i => simp [activeDocument, ha, h.inRange i ha] at hd
  · intro ha
    simp [activeDocument, ha]

theorem indexOf?_eq_none {uri : String} :
    w.indexOf? uri = none ↔ uri ∉ w.documents.map Document.uri := by
  simp only [indexOf?, List.findIdx?_eq_none_iff, beq_eq_false_iff_ne, List.mem_map, not_exists,
    not_and]

theorem getElem?_of_indexOf? {uri : String} {i : Nat} (h : w.indexOf? uri = some i) :
    ∃ d, w.documents[i]? = some d ∧ d.uri = uri := by
  obtain ⟨hi, hu, _⟩ := List.findIdx?_eq_some_iff_getElem.mp h
  exact ⟨w.documents[i], List.getElem?_eq_getElem hi, by simpa using hu⟩

/-- Looking up the name of an open document finds that document and no other. -/
theorem Sound.indexOf?_uri (h : w.Sound) {i : Nat} (hd : w.documents[i]? = some d) :
    w.indexOf? d.uri = some i := by
  obtain ⟨hi, rfl⟩ := List.getElem?_eq_some_iff.mp hd
  refine List.findIdx?_eq_some_iff_getElem.mpr ⟨hi, by simp, fun j hj hu => ?_⟩
  have hl : j < w.documents.length := Nat.lt_trans hj hi
  have he : (w.documents.map Document.uri).get ⟨j, by simpa using hl⟩ =
      (w.documents.map Document.uri).get ⟨i, by simpa using hi⟩ := by
    simpa using hu
  have hji := congrArg Fin.val (h.distinct.injective_get he)
  simp only at hji
  omega

theorem Sound.indexOf?_active (h : w.Sound) (hd : w.activeDocument = some d) :
    ∃ i, w.active = some i ∧ w.indexOf? d.uri = some i := by
  obtain ⟨i, ha, hi⟩ := activeDocument_eq_some.mp hd
  exact ⟨i, ha, h.indexOf?_uri hi⟩

theorem Sound.ofDocuments {documents : List Document} (h : (documents.map Document.uri).Nodup)
    (extensions : List String) : (ofDocuments documents extensions).Sound where
  distinct := h
  inRange i hi := by
    cases documents with
    | nil => simp [Workspace.ofDocuments] at hi
    | cons d ds =>
      simp only [Workspace.ofDocuments, List.isEmpty_cons, Bool.false_eq_true, if_false,
        Option.some.injEq] at hi ⊢
      simp [← hi]

/-- The focus moves only to an open document, and is announced when it does. -/
theorem focus_cases (w : Workspace) (index : Nat) :
    w.focus index = w ∧ (w.documents.length ≤ index ∨ w.active = some index) ∨
      index < w.documents.length ∧ w.active ≠ some index ∧
        w.focus index =
          { w with active := some index, cursor := {}, pending := w.pending ++ [.activeChanged] } := by
  unfold focus
  split
  · rename_i h
    exact .inl ⟨rfl, by simpa using h⟩
  · rename_i h
    simp only [Bool.or_eq_true, decide_eq_true_eq, beq_iff_eq, not_or, Nat.not_le] at h
    exact .inr ⟨h.1, h.2, rfl⟩

theorem mem_pending_focus {x : Event} (h : x ∈ w.pending) (index : Nat) :
    x ∈ (w.focus index).pending := by
  rcases focus_cases w index with ⟨he, _⟩ | ⟨_, _, he⟩ <;> rw [he]
  · exact h
  · exact List.mem_append_left _ h

theorem Sound.focus (h : w.Sound) (index : Nat) : (w.focus index).Sound := by
  rcases focus_cases w index with ⟨he, _⟩ | ⟨hi, _, he⟩
  · rwa [he]
  · rw [he]
    exact ⟨h.distinct, fun i ha => by cases ha; exact hi⟩

theorem Sound.add (h : w.Sound) (hd : w.indexOf? d.uri = none) : (w.add d).Sound where
  distinct := by
    have hn := indexOf?_eq_none.mp hd
    simpa [Workspace.add, push, List.nodup_append, List.nodup_middle] using
      List.Nodup.concat hn h.distinct
  inRange i hi := by
    have := h.inRange i hi
    simp only [Workspace.add, push, List.length_append, List.length_singleton]
    omega

/-- Closing gives the focus to the neighbour, or to none after the last document. -/
theorem closeActive_cases (w : Workspace) :
    w.activeDocument = none ∧ w.closeActive = w ∨
      ∃ i d, w.active = some i ∧ w.documents[i]? = some d ∧
        w.closeActive = { w with
          documents := w.documents.eraseIdx i
          active := if (w.documents.eraseIdx i).isEmpty then none
            else some (min i ((w.documents.eraseIdx i).length - 1))
          cursor := {}
          pending := w.pending ++ [.closed d.uri, .activeChanged] } := by
  cases ha : w.active with
  | none => exact .inl ⟨by simp [activeDocument, ha], by simp only [closeActive, ha]⟩
  | some i =>
    cases hd : w.documents[i]? with
    | none => exact .inl ⟨by simp [activeDocument, ha, hd], by simp only [closeActive, ha, hd]⟩
    | some d => exact .inr ⟨i, d, rfl, hd, by simp [closeActive, ha, hd, push]⟩

theorem Sound.closeActive (h : w.Sound) : w.closeActive.Sound := by
  rcases closeActive_cases w with ⟨_, he⟩ | ⟨i, d, _, _, he⟩
  · rwa [he]
  · rw [he]
    refine ⟨?_, fun j hj => ?_⟩
    · have hs : (w.documents.eraseIdx i).Sublist w.documents := List.eraseIdx_sublist ..
      exact h.distinct.sublist (hs.map _)
    · by_cases hl : (w.documents.eraseIdx i).isEmpty
      · simp [hl] at hj
      · have hp : 0 < (w.documents.eraseIdx i).length :=
          List.length_pos_iff.mpr (by simpa using hl)
        simp only [hl, Bool.false_eq_true, if_false, Option.some.injEq] at hj
        change j < (w.documents.eraseIdx i).length
        omega

/-- A commit replaces one text, and only where the text differs. -/
theorem commit_cases (w : Workspace) (text : String) :
    w.commit text = w ∧ (∀ d, w.activeDocument = some d → d.text = text) ∨
      ∃ i d, w.active = some i ∧ w.documents[i]? = some d ∧ d.text ≠ text ∧
        w.commit text = { w with
          documents := w.documents.set i { d with text }
          pending := w.pending ++ [.changed d.uri] } := by
  cases ha : w.active with
  | none => exact .inl ⟨by simp only [commit, ha], by simp [activeDocument, ha]⟩
  | some i =>
    cases hd : w.documents[i]? with
    | none => exact .inl ⟨by simp only [commit, ha, hd], by simp [activeDocument, ha, hd]⟩
    | some d =>
      by_cases ht : d.text = text
      · exact .inl ⟨by simp [commit, ha, hd, ht], by simp [activeDocument, ha, hd, ht]⟩
      · exact .inr ⟨i, d, rfl, hd, ht, by simp [commit, ha, hd, ht, push]⟩

/-- The active document has the committed text afterwards, under its old name and tag. -/
theorem activeDocument_commit (w : Workspace) (text : String) :
    (w.commit text).activeDocument = w.activeDocument.map ({ · with text }) := by
  rcases commit_cases w text with ⟨he, ht⟩ | ⟨i, d, ha, hd, _, he⟩
  · rw [he]
    cases h : w.activeDocument with
    | none => rfl
    | some d => simp [← ht d h]
  · obtain ⟨hi, rfl⟩ := List.getElem?_eq_some_iff.mp hd
    simp [he, activeDocument, ha, hi]

@[simp] theorem map_uri_commit (w : Workspace) (text : String) :
    (w.commit text).documents.map Document.uri = w.documents.map Document.uri := by
  rcases commit_cases w text with ⟨he, _⟩ | ⟨i, d, _, hd, _, he⟩
  · rw [he]
  · obtain ⟨hi, rfl⟩ := List.getElem?_eq_some_iff.mp hd
    rw [he]
    apply List.ext_getElem (by simp)
    intro j _ _
    by_cases hj : i = j <;> simp [hj]

@[simp] theorem commit_active (w : Workspace) (text : String) :
    (w.commit text).active = w.active := by
  rcases commit_cases w text with ⟨he, _⟩ | ⟨_, _, _, _, _, he⟩ <;> rw [he]

/-- A commit that queues nothing was of the text that the active document has. -/
theorem commit_pending_iff (hd : w.activeDocument = some d) (text : String) :
    (w.commit text).pending = w.pending ↔ text = d.text := by
  rcases w.commit_cases text with ⟨he, ht⟩ | ⟨i, d', hi, hd', hne, he⟩
  · rw [he]
    exact iff_of_true rfl (ht d hd).symm
  · have hdd : d' = d := Option.some.inj ((activeDocument_eq_some.mpr ⟨i, hi, hd'⟩).symm.trans hd)
    subst hdd
    refine iff_of_false (fun hp => ?_) fun ht => hne ht.symm
    rw [he] at hp
    simp at hp

/-- A commit of another text is queued. -/
theorem commit_pending (hd : w.activeDocument = some d) {text : String} (hne : text ≠ d.text) :
    (w.commit text).pending = w.pending ++ [.changed d.uri] := by
  rcases w.commit_cases text with ⟨_, ht⟩ | ⟨i, d', hi, hd', _, he⟩
  · exact absurd (ht d hd).symm hne
  · have hdd : d' = d := Option.some.inj ((activeDocument_eq_some.mpr ⟨i, hi, hd'⟩).symm.trans hd)
    rw [he, hdd]

theorem commit_self (hd : w.activeDocument = some d) : w.commit d.text = w := by
  have hp := (commit_pending_iff hd d.text).mpr rfl
  rcases w.commit_cases d.text with ⟨he, _⟩ | ⟨i, d', _, _, _, he⟩
  · exact he
  · rw [he] at hp
    simp at hp

theorem Sound.commit (h : w.Sound) (text : String) : (w.commit text).Sound where
  distinct := by rw [map_uri_commit]; exact h.distinct
  inRange i hi := by
    have hl := congrArg List.length (map_uri_commit w text)
    simp only [List.length_map] at hl
    rw [commit_active] at hi
    exact hl ▸ h.inRange i hi

/-- Opening finds the document among the open ones, or reads it, or fails. -/
theorem openFile_cases (w : Workspace) (disk : Files.Disk) (path : String) :
    (∃ i, w.indexOf? path = some i ∧ w.openFile disk path = (some i, w.focus i)) ∨
      w.indexOf? path = none ∧
        ((∃ d, d.uri = path ∧
            w.openFile disk path = (some w.documents.length, (w.add d).focus w.documents.length)) ∨
          ∃ message, w.openFile disk path = (none, { w with message })) := by
  unfold openFile
  cases hi : w.indexOf? path with
  | some i => exact .inl ⟨i, rfl, rfl⟩
  | none =>
    refine .inr ⟨rfl, ?_⟩
    cases ho : Files.openDocument disk w.extensions path with
    | ok d => exact .inl ⟨d, Files.openDocument_uri ho, rfl⟩
    | error e => exact .inr ⟨_, rfl⟩

theorem Sound.openFile (h : w.Sound) (disk : Files.Disk) (path : String) :
    (w.openFile disk path).2.Sound := by
  rcases openFile_cases w disk path with ⟨i, _, he⟩ | ⟨hn, ⟨d, rfl, he⟩ | ⟨m, he⟩⟩ <;> rw [he]
  · exact h.focus i
  · exact (h.add hn).focus _
  · exact ⟨h.distinct, h.inRange⟩

/-- Asking for a document by name changes nothing but that it may be added. -/
theorem openDocument_cases (w : Workspace) (disk : Files.Disk) (uri : String) :
    (∃ i d, w.indexOf? uri = some i ∧ w.documents[i]? = some d ∧
        w.openDocument disk uri = (some d, w)) ∨
      w.indexOf? uri = none ∧
        ((∃ d, d.uri = uri ∧ w.openDocument disk uri = (some d, w.add d)) ∨
          w.openDocument disk uri = (none, w)) := by
  unfold openDocument
  cases hi : w.indexOf? uri with
  | some i =>
    obtain ⟨d, hd, _⟩ := getElem?_of_indexOf? hi
    exact .inl ⟨i, d, rfl, hd, by simp [hd]⟩
  | none =>
    refine .inr ⟨rfl, ?_⟩
    cases ho : Files.openDocument disk w.extensions uri with
    | ok d => exact .inl ⟨d, Files.openDocument_uri ho, rfl⟩
    | error e => exact .inr rfl

theorem Sound.openDocument (h : w.Sound) (disk : Files.Disk) (uri : String) :
    (w.openDocument disk uri).2.Sound := by
  rcases openDocument_cases w disk uri with ⟨i, d, _, _, he⟩ | ⟨hn, ⟨d, rfl, he⟩ | he⟩ <;> rw [he]
  · exact h
  · exact h.add hn
  · exact h

theorem Sound.reveal (h : w.Sound) (uri : String) (position : Position) :
    (w.reveal uri position).Sound := by
  unfold Workspace.reveal
  cases w.indexOf? uri with
  | none => exact ⟨h.distinct, h.inRange⟩
  | some i => exact ⟨(h.focus i).distinct, (h.focus i).inRange⟩

/-- What can be done to a workspace directly. What is queued on the way stays queued. -/
inductive Operation where
  | focus (index : Nat)
  | openFile (path : String)
  | closeActive
  | commit (text : String)
  | openDocument (uri : String)
  | reveal (uri : String) (position : Position)
  deriving DecidableEq, Repr

namespace Operation

def run (disk : Files.Disk) (w : Workspace) : Operation → Workspace
  | .focus index => w.focus index
  | .openFile path => (w.openFile disk path).2
  | .closeActive => w.closeActive
  | .commit text => w.commit text
  | .openDocument uri => (w.openDocument disk uri).2
  | .reveal uri position => w.reveal uri position

theorem run_sound (h : w.Sound) (disk : Files.Disk) (op : Operation) : (op.run disk w).Sound := by
  cases op with
  | focus index => exact h.focus index
  | openFile path => exact h.openFile disk path
  | closeActive => exact h.closeActive
  | commit text => exact h.commit text
  | openDocument uri => exact h.openDocument disk uri
  | reveal uri position => exact h.reveal uri position

end Operation

/-- A step from `w` to `w'` is announced when the queue tells of it: nothing is queued and the
active document is the same, or the last event queued has the active document looked up, or the
text of the active document changed and that is what is queued. -/
inductive Announced (w w' : Workspace) : Prop where
  | quiet (pending : w'.pending = w.pending) (active : w'.activeDocument = w.activeDocument)
  | follows (events : List Event) (x : Event) (hx : x.follows = true)
      (pending : w'.pending = w.pending ++ (events ++ [x]))
  | changed (d : Document) (text : String) (before : w.activeDocument = some d)
      (after : w'.activeDocument = some { d with text })
      (pending : w'.pending = w.pending ++ [.changed d.uri])

theorem focus_announced (w : Workspace) (index : Nat) : w.Announced (w.focus index) := by
  rcases focus_cases w index with ⟨he, _⟩ | ⟨_, _, he⟩ <;> rw [he]
  · exact .quiet rfl rfl
  · exact .follows [] .activeChanged rfl rfl

theorem openFile_announced (w : Workspace) (disk : Files.Disk) (path : String) :
    w.Announced (w.openFile disk path).2 := by
  rcases openFile_cases w disk path with ⟨i, _, he⟩ | ⟨_, ⟨d, rfl, he⟩ | ⟨m, he⟩⟩ <;> rw [he]
  · exact w.focus_announced i
  · rcases focus_cases (w.add d) w.documents.length with ⟨hf, _⟩ | ⟨_, _, hf⟩
    · exact .follows [] (.opened d.uri) rfl (by rw [hf]; rfl)
    · exact .follows [.opened d.uri] .activeChanged rfl (by rw [hf]; simp [Workspace.add, push])
  · exact .quiet rfl rfl

theorem closeActive_announced (w : Workspace) : w.Announced w.closeActive := by
  rcases closeActive_cases w with ⟨_, he⟩ | ⟨i, d, _, _, he⟩ <;> rw [he]
  · exact .quiet rfl rfl
  · exact .follows [.closed d.uri] .activeChanged rfl rfl

theorem commit_announced (w : Workspace) (text : String) : w.Announced (w.commit text) := by
  have ha := activeDocument_commit w text
  rcases commit_cases w text with ⟨he, _⟩ | ⟨i, d, hi, hd, _, he⟩
  · rw [he]
    exact .quiet rfl rfl
  · have hw : w.activeDocument = some d := activeDocument_eq_some.mpr ⟨i, hi, hd⟩
    exact .changed d text hw (by simpa [hw] using ha) (by rw [he])

theorem openDocument_announced (w : Workspace) (disk : Files.Disk) (uri : String) :
    w.Announced (w.openDocument disk uri).2 := by
  rcases openDocument_cases w disk uri with ⟨i, d, _, _, he⟩ | ⟨_, ⟨d, rfl, he⟩ | he⟩ <;> rw [he]
  · exact .quiet rfl rfl
  · exact .follows [] (.opened d.uri) rfl rfl
  · exact .quiet rfl rfl

theorem reveal_announced (w : Workspace) (uri : String) (position : Position) :
    w.Announced (w.reveal uri position) := by
  unfold Workspace.reveal
  cases w.indexOf? uri with
  | none => exact .quiet rfl rfl
  | some i =>
    cases w.focus_announced i with
    | quiet hp ha => exact .quiet hp ha
    | follows events x hx hp => exact .follows events x hx hp
    | changed d text hb ha hp => exact .changed d text hb ha hp

theorem Operation.run_announced (disk : Files.Disk) (op : Operation) :
    w.Announced (op.run disk w) := by
  cases op with
  | focus index => exact w.focus_announced index
  | openFile path => exact w.openFile_announced disk path
  | closeActive => exact w.closeActive_announced
  | commit text => exact w.commit_announced text
  | openDocument uri => exact w.openDocument_announced disk uri
  | reveal uri position => exact w.reveal_announced uri position

end Workspace

end YamlOutline
