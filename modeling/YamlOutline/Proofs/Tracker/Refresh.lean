import YamlOutline.Tracker

/-! What the tracker is after each of its actions, over any editor. The outline is always the one
that belongs to the tracked document; only the document depends on what the editor answers. -/

namespace YamlOutline

/-- The events after which the tracker looks up the active document. The others concern the
document that they name, and only if it is the one tracked. -/
def Editor.Event.follows : Editor.Event → Bool
  | .activeChanged | .opened _ => true
  | .closed _ | .changed _ => false

/-- Whether the event tells of a changed text. -/
def Editor.Event.isChange : Editor.Event → Bool
  | .changed _ => true
  | .activeChanged | .opened _ | .closed _ => false

namespace Tracker
open Outline (Item)
open Editor (Event)
variable {σ : Type}

/-- The outline that belongs to a document: none without one, and none for a malformed text. -/
def outlineFor (t : Tracker) : Option Document → List Item
  | none => []
  | some d =>
    match t.build d with
    | .ok roots => roots
    | .error _ => []

/-- The outline held is the one of the document held. -/
def UpToDate (t : Tracker) : Prop :=
  t.roots = t.outlineFor t.document

/-- The outline depends on where labels come from and on nothing else that the tracker holds. -/
private theorem outlineFor_congr {t u : Tracker} (h : t.source = u.source) :
    t.outlineFor = u.outlineFor := by
  funext d
  cases d with
  | none => rfl
  | some d => simp only [outlineFor, build, h]

@[simp] theorem outlineFor_bind (t : Tracker) (d : Option Document) :
    ({ t with document := d } : Tracker).outlineFor = t.outlineFor :=
  outlineFor_congr rfl

theorem refresh_fst (e : Editor σ) (t : Tracker) (s : σ) :
    (t.refresh e s).1 = { t with roots := t.outlineFor t.document } := by
  unfold refresh
  cases ht : t.document with
  | none => rfl
  | some d => cases hb : t.build d <;> simp only [outlineFor, hb]

/-- Binding to a document, or to none, and building its outline. -/
def boundTo (t : Tracker) (d : Option Document) : Tracker :=
  { t with document := d, roots := t.outlineFor d }

private theorem refresh_bind_fst (e : Editor σ) (d : Document) (t : Tracker) (s s' : σ) :
    (refresh e (t.bind e d s).1 s').1 = t.boundTo (some d) := by
  rw [refresh_fst]
  simp only [bind, outlineFor_bind, boundTo]

theorem refresh_unbind_fst (e : Editor σ) (t : Tracker) (s s' : σ) :
    (refresh e (t.unbind e s).1 s').1 = t.boundTo none := by
  rw [refresh_fst]
  simp only [unbind, outlineFor_bind, boundTo]

/-- Following leads to the active document if it is YAML, whatever was tracked before. -/
theorem follow_fst (e : Editor σ) (t : Tracker) (s : σ) :
    (t.follow e s).1 = t.boundTo ((e.active s).1.filter Document.isYaml) := by
  unfold follow
  obtain ⟨active, s'⟩ := e.active s
  cases active with
  | none => exact refresh_unbind_fst e t s' _
  | some d =>
    cases hy : d.isYaml with
    | false =>
      simp only [hy, Bool.false_eq_true, if_false, Option.filter_some_neg]
      exact refresh_unbind_fst e t s' _
    | true =>
      simp only [hy, if_true, Option.filter_some_pos]
      exact refresh_bind_fst e d t s' _

theorem activate_fst (e : Editor σ) (t : Tracker) (s : σ) :
    ∃ s', (t.activate e s).1 = t.boundTo ((e.active s').1.filter Document.isYaml) :=
  ⟨_, follow_fst ..⟩

@[simp] theorem boundTo_document (t : Tracker) (d : Option Document) : (t.boundTo d).document = d := rfl
@[simp] theorem boundTo_source (t : Tracker) (d : Option Document) : (t.boundTo d).source = t.source := rfl

theorem boundTo_upToDate (t : Tracker) (d : Option Document) : (t.boundTo d).UpToDate :=
  congrFun (outlineFor_congr (t := t) (u := t.boundTo d) rfl) d

theorem handle_of_follows {event : Event} (h : event.follows = true) (e : Editor σ) (t : Tracker)
    (s : σ) : t.handle e event s = t.follow e s := by
  cases event with
  | activeChanged | opened => rfl
  | closed | changed => cases h

theorem handle_closed_fst (e : Editor σ) (uri : String) (t : Tracker) (s : σ) :
    (t.handle e (.closed uri) s).1 = if t.isBoundTo uri then t.boundTo none else t := by
  simp only [handle]
  split
  · exact refresh_unbind_fst ..
  · rfl

/-- A change leads to the document as the editor has it now. Where the editor has none, the
snapshot stays. -/
theorem handle_changed_fst (e : Editor σ) (uri : String) (t : Tracker) (s : σ) :
    (t.handle e (.changed uri) s).1 =
      if t.isBoundTo uri then t.boundTo ((e.open? uri s).1.or t.document) else t := by
  simp only [handle]
  split
  · cases ho : (e.open? uri s).1 with
    | none => exact refresh_fst ..
    | some d => exact refresh_bind_fst ..
  · rfl

/-- Looking up the active document ends with an outline built. -/
private theorem follow_refreshes (e : Editor σ) (t : Tracker) (s : σ) :
    ∃ u s', t.follow e s = refresh e u s' := by
  unfold follow
  rcases e.active s with ⟨_ | d, s'⟩
  · exact ⟨_, _, rfl⟩
  · cases hy : d.isYaml with
    | false =>
      simp only [hy, Bool.false_eq_true, if_false]
      exact ⟨_, _, rfl⟩
    | true =>
      simp only [hy, if_true]
      exact ⟨_, _, rfl⟩

/-- So does a change of the document held. -/
theorem handle_changed_refreshes {t : Tracker} {uri : String} (h : t.isBoundTo uri = true)
    (e : Editor σ) (s : σ) : ∃ u s', t.handle e (.changed uri) s = refresh e u s' := by
  simp only [handle, h, if_true]
  rcases e.open? uri s with ⟨_ | d, s'⟩ <;> exact ⟨_, _, rfl⟩

/-- Whatever event comes, it is passed over or ends with an outline built. -/
theorem handle_refreshes (e : Editor σ) (event : Event) (t : Tracker) (s : σ) :
    t.handle e event s = (t, s) ∨ ∃ u s', t.handle e event s = refresh e u s' := by
  cases event with
  | activeChanged | opened uri => exact .inr (follow_refreshes e t s)
  | closed uri =>
    simp only [handle]
    split
    · exact .inr ⟨_, _, rfl⟩
    · exact .inl rfl
  | changed uri =>
    by_cases h : t.isBoundTo uri = true
    · exact .inr (handle_changed_refreshes h e s)
    · exact .inl (by simp only [handle, if_neg h])

end Tracker

end YamlOutline
