import Mathlib.Data.List.TFAE
import Mathlib.Tactic.TFAE
import YamlOutline.Proofs.Buffer.Typing
import YamlOutline.Proofs.Session.Run
import YamlOutline.Session.Keys

/-! What the active document's text is after it was in the editor: the text of the buffer with the
document's line ending put back, whether the edits are kept in memory or saved. -/

namespace YamlOutline.Session
variable {s s' : Session} {d : Document} {uri text : String}

/-- A committed text is the active document's text once it was delivered. -/
theorem commitEdit_activeDocument (hd : s.workspace.activeDocument = some d) (text : String) :
    (s.commitEdit text).workspace.activeDocument = some { d with text } := by
  have hc : (s.workspace.commit text).activeDocument = some { d with text } := by
    rw [Workspace.activeDocument_commit, hd]
    rfl
  obtain ⟨ds, hg⟩ := (drain_delivers { s with workspace := s.workspace.commit text }).grows
  have hg' := hg.activeDocument_eq_some hc
  rw [commitEdit, sync_workspace]
  exact hg'

theorem exitEditor_activeDocument (hd : s.workspace.activeDocument = some d)
    (hp : s.pendingEdit? = some (uri, text)) :
    (s.exitEditor false).workspace.activeDocument = some { d with text } := by
  rw [exitEditor_of_pendingEdit? hp]
  exact commitEdit_activeDocument hd text

/-- What was saved stands on the disk and is the active document's text. -/
theorem save_activeDocument (hd : s.workspace.activeDocument = some d)
    (hp : s.pendingEdit? = some (uri, text)) (hs : s.save = .ok s') :
    s.disk.write uri text = .ok s'.disk ∧ s'.workspace.activeDocument = some { d with text } := by
  obtain ⟨disk, hw, rfl⟩ := save_of_pendingEdit? hp hs
  refine ⟨hw.trans (congrArg Except.ok ?_), ?_⟩
  · change disk = ({ s with disk }.commitEdit text).disk
    rw [commitEdit, sync_frame]
  · have hd' : ({ s with disk } : Session).workspace.activeDocument = some d := hd
    exact commitEdit_activeDocument hd' text

/-! ### Without an edit -/

theorem enterEditor_workspace (s : Session) : s.enterEditor.workspace = s.workspace := by
  unfold enterEditor
  split <;> rfl

theorem enterEditor_buffer (hd : s.workspace.activeDocument = some d) :
    ∃ row column, s.enterEditor.buffer = some { Buffer.ofText d.text with row, column } := by
  unfold enterEditor
  simp only [hd]
  exact ⟨_, _, rfl⟩

private theorem enterEditor_pendingEdit? (hd : s.workspace.activeDocument = some d) :
    s.enterEditor.pendingEdit? =
      some (d.uri, matchLineEndings (Buffer.ofText d.text).text d.text) := by
  obtain ⟨row, column, hb⟩ := enterEditor_buffer hd
  exact pendingEdit?_eq_some.mpr ⟨_, d, hb, by rw [enterEditor_workspace, hd], rfl, rfl⟩

/-- Entering the editor and leaving it again without an edit. The document stays as it is and
nothing is queued exactly if its lines end alike. -/
theorem unedited_document_kept_tfae (hd : s.workspace.activeDocument = some d) :
    List.TFAE [
      EndsAlike d.text,
      matchLineEndings (Buffer.ofText d.text).text d.text = d.text,
      matchLineEndings ({ rows := Text.pieces '\n' d.text.toList } : Buffer).text d.text = d.text,
      s.enterEditor.pendingEdit? = some (d.uri, d.text),
      ∀ uri text, s.enterEditor.pendingEdit? = some (uri, text) →
        s.enterEditor.workspace.commit text = s.workspace,
      ∀ uri text, s.enterEditor.pendingEdit? = some (uri, text) →
        (s.enterEditor.workspace.commit text).pending = s.workspace.pending,
      (s.enterEditor.exitEditor false).workspace.activeDocument = some d] := by
  have hp := enterEditor_pendingEdit? hd
  have hd' : s.enterEditor.workspace.activeDocument = some d := by rw [enterEditor_workspace, hd]
  tfae_have 1 ↔ 2 := (matchLineEndings_text_ofText_iff d.text).symm
  tfae_have 2 ↔ 3 := by
    rw [Buffer.text_ofText_eq]
  tfae_have 2 ↔ 4 := by
    rw [hp]
    simp
  tfae_have 4 → 5 := by
    intro h uri text ht
    rw [h] at ht
    cases ht
    rw [enterEditor_workspace]
    exact Workspace.commit_self hd
  tfae_have 5 → 6 := fun h uri text ht => congrArg Workspace.pending (h uri text ht)
  tfae_have 6 → 2 := by
    intro h
    have hc := h _ _ hp
    rw [enterEditor_workspace] at hc
    exact (Workspace.commit_pending_iff hd _).mp hc
  tfae_have 2 ↔ 7 := by
    rw [exitEditor_activeDocument hd' hp]
    obtain ⟨uri, language, text⟩ := d
    simp
  tfae_finish

/-- A document with the one kind of line ending throughout is left as it is. -/
theorem unedited_document_kept_with_returns :
    ∃ s d, started (.ofFolder [] []) {} [⟨"a.yaml", "yaml", "k: 1\r\nl: 2\r\n"⟩] [] = s ∧
      s.workspace.activeDocument = some d ∧ d.text = "k: 1\r\nl: 2\r\n" ∧
        (s.enterEditor.exitEditor false).workspace.activeDocument = some d := by
  have hd : (started (.ofFolder [] []) {} [⟨"a.yaml", "yaml", "k: 1\r\nl: 2\r\n"⟩] []).workspace.activeDocument =
      some ⟨"a.yaml", "yaml", "k: 1\r\nl: 2\r\n"⟩ := by decide
  exact ⟨_, _, rfl, hd, rfl, ((unedited_document_kept_tfae hd).out 0 6).mp (by decide)⟩

/-- A document with both kinds of line endings is changed without an edit. -/
theorem unedited_document_changed_with_both_endings :
    ∃ s d, started (.ofFolder [] []) {} [⟨"a.yaml", "yaml", "k: 1\r\nl: 2\n"⟩] [] = s ∧
      s.workspace.activeDocument = some d ∧
        (s.enterEditor.exitEditor false).workspace.activeDocument =
            some { d with text := "k: 1\r\nl: 2\r\n" } ∧
          d.text ≠ "k: 1\r\nl: 2\r\n" :=
  ⟨_, ⟨"a.yaml", "yaml", "k: 1\r\nl: 2\n"⟩, rfl, by decide, by decide, by decide⟩

/-! ### With keys -/

/-- The session after keys that the editor took. -/
def typed (s : Session) (keys : List Key) : Session :=
  { s with buffer := s.buffer.map fun b => keys.foldl Buffer.press b }

/-- Keys are taken one after the other. -/
private theorem typed_cons (s : Session) (key : Key) (keys : List Key) :
    s.typed (key :: keys) = (s.typed [key]).typed keys := by
  simp [typed, Option.map_map, Function.comp_def]

/-- The editor takes every key but the two that leave it, and those too while it inserts. -/
private theorem editorKey_eq_typed {b : Buffer} (hb : s.buffer = some b) {key : Key}
    (hk : b.mode = .normal → key ≠ .char ':' ∧ key ≠ .escape) :
    s.editorKey key = (false, s.typed [key]) := by
  have ht : s.typed [key] = { s with buffer := some (b.press key) } := by
    simp [typed, hb]
  unfold editorKey editorKeyWith
  rw [hb]
  simp only
  split
  · rename_i hm
    exact absurd rfl (hk hm).1
  · rename_i hm
    exact absurd rfl (hk hm).2
  · rw [ht]

/-- No key leaves the editor. -/
def Stays : Buffer → List Key → Prop
  | _, [] => True
  | b, key :: keys =>
    (b.mode = .normal → key ≠ .char ':' ∧ key ≠ .escape) ∧ Stays (b.press key) keys

/-- Keys that do not leave the editor all go to the buffer. -/
theorem foldl_editorKey {b : Buffer} (hb : s.buffer = some b) {keys : List Key} (hk : Stays b keys) :
    keys.foldl (fun s key => (s.editorKey key).2) s = s.typed keys := by
  induction keys generalizing s b with
  | nil => simp [typed]
  | cons key keys ih =>
    have ht : (s.typed [key]).buffer = some (b.press key) := by simp [typed, hb]
    rw [List.foldl_cons, editorKey_eq_typed hb hk.1, ih ht hk.2, ← typed_cons]

private theorem typed_pendingEdit? (hd : s.workspace.activeDocument = some d) (keys : List Key) :
    ∃ b, (s.enterEditor.typed keys).buffer = some (keys.foldl Buffer.press b) ∧
      b.rows = (Buffer.ofText d.text).rows ∧
        (s.enterEditor.typed keys).pendingEdit? =
          some (d.uri, matchLineEndings (keys.foldl Buffer.press b).text d.text) := by
  obtain ⟨row, column, hb⟩ := enterEditor_buffer hd
  have ht : (s.enterEditor.typed keys).buffer =
      some (keys.foldl Buffer.press { Buffer.ofText d.text with row, column }) := by
    simp [typed, hb]
  refine ⟨_, ht, rfl, pendingEdit?_eq_some.mpr ⟨_, d, ht, ?_, rfl, rfl⟩⟩
  change s.enterEditor.workspace.activeDocument = some d
  rw [enterEditor_workspace, hd]

/-- Editing a paired document with any keys but the carriage return. What is committed, be it on
leaving or on saving, is paired if the document has a newline at all, and else has no carriage
return. -/
theorem typed_text_paired (hd : s.workspace.activeDocument = some d)
    (hp : Text.Paired d.text.toList) (keys : List Key) (hk : .char '\r' ∉ keys) :
    ∃ text, (s.enterEditor.typed keys).pendingEdit? = some (d.uri, text) ∧
      ((s.enterEditor.typed keys).exitEditor false).workspace.activeDocument = some { d with text } ∧
      (∀ s', (s.enterEditor.typed keys).save = .ok s' → s.disk.write d.uri text = .ok s'.disk ∧
        s'.workspace.activeDocument = some { d with text }) ∧
      ('\n' ∈ d.text.toList → Text.Paired text.toList) ∧
      ('\n' ∉ d.text.toList → '\r' ∉ text.toList) := by
  obtain ⟨b, _, hb, he⟩ := typed_pendingEdit? hd keys
  have hd' : (s.enterEditor.typed keys).workspace.activeDocument = some d := by
    change s.enterEditor.workspace.activeDocument = some d
    rw [enterEditor_workspace, hd]
  have hdisk : (s.enterEditor.typed keys).disk = s.disk := by
    change s.enterEditor.disk = s.disk
    unfold enterEditor
    split <;> rfl
  have hload : b.NoReturn := by
    intro row hm
    exact Buffer.NoReturn.ofText hp row (hb ▸ hm)
  have htext : '\r' ∉ (keys.foldl Buffer.press b).text.toList := (hload.foldl_press hk).text
  refine ⟨_, he, exitEditor_activeDocument hd' he, fun s' hs => ?_, fun hn => ?_, fun hn => ?_⟩
  · rw [← hdisk]
    exact save_activeDocument hd' he hs
  · exact matchLineEndings_paired hp hn htext
  · rw [matchLineEndings_of_notMem hn]
    exact htext

/-- Joining two lines and breaking one again. -/
theorem typed_text_paired_after_join :
    ∃ s d, started (.ofFolder [] []) {} [⟨"a.yaml", "yaml", "k:\r\n- 1\r\n"⟩] [] = s ∧
      s.workspace.activeDocument = some d ∧ Text.Paired d.text.toList ∧
      ∃ text, ((s.enterEditor.typed [.char 'j', .char 'i', .backspace, .char ' ', .enter]).exitEditor
          false).workspace.activeDocument = some { d with text } ∧ Text.Paired text.toList := by
  have hd : (started (.ofFolder [] []) {} [⟨"a.yaml", "yaml", "k:\r\n- 1\r\n"⟩] []).workspace.activeDocument =
      some ⟨"a.yaml", "yaml", "k:\r\n- 1\r\n"⟩ := by decide
  have hp : Text.Paired ['k', ':', '\r', '\n', '-', ' ', '1', '\r', '\n'] :=
    .cons (by decide) (by decide) <| .cons (by decide) (by decide) <| .crLf <|
      .cons (by decide) (by decide) <| .cons (by decide) (by decide) <|
        .cons (by decide) (by decide) <| .crLf .nil
  obtain ⟨text, _, he, _, ht, _⟩ := typed_text_paired hd hp
    [.char 'j', .char 'i', .backspace, .char ' ', .enter] (by decide)
  exact ⟨_, _, rfl, hd, hp, text, he, ht (by decide)⟩

/-- A newline in a document without any has no carriage return to go with. -/
theorem typed_newline_unpaired :
    ∃ s d text, started (.ofFolder [] []) {} [⟨"a.yaml", "yaml", "ab"⟩] [] = s ∧
      s.workspace.activeDocument = some d ∧ Text.Paired d.text.toList ∧
      ((s.enterEditor.typed [.char 'i', .enter, .escape]).exitEditor false).workspace.activeDocument =
        some { d with text } ∧ ¬ Text.Paired text.toList := by
  have hp : Text.Paired ['a', 'b'] :=
    .cons (by decide) (by decide) <| .cons (by decide) (by decide) .nil
  refine ⟨_, ⟨"a.yaml", "yaml", "ab"⟩, "\nab", rfl, by decide, hp, by decide, fun h => ?_⟩
  have hn := (h [] '\n' ['a', 'b'] rfl).2 rfl
  cases hn

end YamlOutline.Session
