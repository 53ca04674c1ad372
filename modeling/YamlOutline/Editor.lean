import YamlOutline.Document
import YamlOutline.Log

/-!
The editor around the outline: what it is asked to do, and what it reports.
-/

namespace YamlOutline

/-- The services of an editor with state `σ`. Answers may differ from call to call. -/
structure Editor (σ : Type) where
  /-- The document that has the focus. -/
  active : σ → Option Document × σ
  /-- The document with the name, opened if it is not open yet. -/
  open? : (uri : String) → σ → Option Document × σ
  showError : (message : String) → σ → σ
  /-- The outline was built again and should be drawn. -/
  outlineChanged : σ → σ
  /-- Moves the focus to the document and the cursor to the position. -/
  reveal : (uri : String) → Position → σ → σ
  note : Log.Record → σ → σ

namespace Editor

/-- What an editor reports. -/
inductive Event where
  /-- The focus went to another document, or to none. -/
  | activeChanged
  | opened (uri : String)
  | closed (uri : String)
  /-- Edits of the document came into force. -/
  | changed (uri : String)
  deriving DecidableEq, Repr

/-- What a user asks of the outline. -/
inductive Command where
  /-- Build the outline of the active document again. -/
  | showOutline
  /-- Put the cursor on the line where a span begins, in the active document if none is named. -/
  | reveal (span : Nat × Nat) (uri : Option String)
  deriving DecidableEq, Repr

end Editor

end YamlOutline
