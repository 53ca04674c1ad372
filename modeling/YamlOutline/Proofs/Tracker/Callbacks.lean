import YamlOutline.Proofs.Tracker.Refresh

/-! What the tracker asks of its editor, whatever the editor answers. Every action either leaves the
tracker as it is and tells the editor nothing, or ends with one word that the outline was built
again, after one complaint if the document tracked then is malformed. -/

namespace YamlOutline
variable {σ : Type}

namespace Editor

/-- One use of an editor's services. Notes for the log are none. -/
inductive Call where
  | active
  | opened (uri : String)
  | showError (message : String)
  | outlineChanged
  | reveal (uri : String) (position : Position)
  deriving DecidableEq

/-- Whether the call tells of the outline. The others ask for a document or move the cursor. -/
def Call.announces : Call → Bool
  | .showError _ | .outlineChanged => true
  | .active | .opened _ | .reveal _ _ => false

/-- The editor `e`, keeping account of the calls in order. It answers what `e` answers. -/
def recorded (e : Editor σ) : Editor (σ × List Call) where
  active s := ((e.active s.1).1, (e.active s.1).2, s.2 ++ [.active])
  open? uri s := ((e.open? uri s.1).1, (e.open? uri s.1).2, s.2 ++ [.opened uri])
  showError message s := (e.showError message s.1, s.2 ++ [.showError message])
  outlineChanged s := (e.outlineChanged s.1, s.2 ++ [.outlineChanged])
  reveal uri position s := (e.reveal uri position s.1, s.2 ++ [.reveal uri position])
  note record s := (e.note record s.1, s.2)

end Editor

namespace Tracker
open Editor (Call Command Event)

/-- What may happen to a tracker. -/
inductive Action where
  | activate
  | handle (event : Event)
  | execute (command : Command)

def act (e : Editor σ) (t : Tracker) (s : σ) : Action → Tracker × σ
  | .activate => t.activate e s
  | .handle event => t.handle e event s
  | .execute command => t.execute e command s

def actAll (e : Editor σ) (t : Tracker) (s : σ) (actions : List Action) : Tracker × σ :=
  actions.foldl (fun r a => act e r.1 r.2 a) (t, s)

/-- The one complaint about a tracked document that is malformed. -/
def complaints (t : Tracker) : List Call :=
  match t.document with
  | none => []
  | some d =>
    match parse d.text with
    | .ok _ => []
    | .error error => [.showError error.message]

variable {e : Editor σ} {t : Tracker} {s : σ} {calls : List Call}

private theorem noteAll_recorded (e : Editor σ) (records : List Log.Record) (s : σ)
    (calls : List Call) :
    noteAll e.recorded records (s, calls) = (noteAll e records s, calls) := by
  induction records generalizing s with
  | nil => rfl
  | cons r records ih => exact ih (e.note r s)

/-- An outline can be built exactly if the text is well-formed, wherever labels come from. -/
theorem build_error_iff (t : Tracker) (d : Document) (error : ParseError) :
    t.build d = .error error ↔ parse d.text = .error error := by
  unfold build
  cases parse d.text with
  | error _ => simp
  | ok root => cases t.source <;> simp

/-! ### The calls of each action -/

private theorem refresh_recorded (e : Editor σ) (t : Tracker) (s : σ) (calls : List Call) :
    t.refresh e.recorded (s, calls) =
      ((t.refresh e s).1, (t.refresh e s).2, calls ++ t.complaints ++ [.outlineChanged]) := by
  unfold refresh complaints
  cases t.document with
  | none => simp [Editor.recorded]
  | some d =>
    simp only [noteAll_recorded]
    cases hb : t.build d with
    | error error => simp [(build_error_iff t d error).mp hb, Editor.recorded]
    | ok roots =>
      cases hp : parse d.text with
      | error error => simp [(build_error_iff t d error).mpr hp] at hb
      | ok root => simp [Editor.recorded]

/-- What an action asked of the editor, and what it made of the tracker. -/
inductive Answered (t t' : Tracker) (calls : List Call) : Prop where
  | unmoved (same : t' = t) (silent : ∀ c ∈ calls, c.announces = false)
  | rebuilt (asked : List Call) (silent : ∀ c ∈ asked, c.announces = false)
      (told : calls = asked ++ t'.complaints ++ [.outlineChanged])

theorem bind_recorded (e : Editor σ) (d : Document) (t : Tracker) (s : σ) (calls : List Call) :
    t.bind e.recorded d (s, calls) = ((t.bind e d s).1, (t.bind e d s).2, calls) := rfl

private theorem unbind_recorded (e : Editor σ) (t : Tracker) (s : σ) (calls : List Call) :
    t.unbind e.recorded (s, calls) = ((t.unbind e s).1, (t.unbind e s).2, calls) := by
  unfold unbind
  cases t.document <;> rfl

/-- The editor that keeps account goes the way of the other one, and the calls in between answer
for what became of the tracker. -/
def Accounts (t : Tracker) (calls : List Call) (r : Tracker × σ) (r' : Tracker × σ × List Call) : Prop :=
  ∃ told, r' = (r.1, r.2, calls ++ told) ∧ Answered t r.1 told

/-- A refresh after some questions, of a tracker that may have been bound anew in between. -/
private theorem refresh_accounts (e : Editor σ) (t u : Tracker) (s : σ) (calls : List Call)
    (asked : List Call) (h : ∀ c ∈ asked, c.announces = false) :
    Accounts t calls (u.refresh e s) (u.refresh e.recorded (s, calls ++ asked)) := by
  have hd : (u.refresh e s).1.document = u.document := by rw [refresh_fst]
  refine ⟨asked ++ u.complaints ++ [.outlineChanged], ?_, .rebuilt asked h ?_⟩
  · rw [refresh_recorded]
    simp only [List.append_assoc]
  · simp only [complaints, hd]

private theorem follow_accounts (e : Editor σ) (t : Tracker) (s : σ) (calls : List Call) :
    Accounts t calls (t.follow e s) (t.follow e.recorded (s, calls)) := by
  have hq : ∀ c ∈ [Call.active], c.announces = false := by decide
  obtain ⟨answer, s', ha⟩ : ∃ answer s', e.active s = (answer, s') := ⟨_, _, rfl⟩
  have hr : e.recorded.active (s, calls) = (answer, s', calls ++ [.active]) := by
    simp only [Editor.recorded, ha]
  simp only [follow, ha, hr]
  cases answer with
  | none =>
    simp only [unbind_recorded]
    exact refresh_accounts e t _ _ calls _ hq
  | some d =>
    cases hy : d.isYaml with
    | false =>
      simp only [hy, Bool.false_eq_true, if_false, unbind_recorded]
      exact refresh_accounts e t _ _ calls _ hq
    | true =>
      simp only [hy, if_true, bind_recorded]
      exact refresh_accounts e t _ _ calls _ hq

private theorem handle_accounts (e : Editor σ) (event : Event) (t : Tracker) (s : σ)
    (calls : List Call) :
    Accounts t calls (t.handle e event s) (t.handle e.recorded event (s, calls)) := by
  have unmoved : Accounts t calls (t, s) (t, s, calls) := ⟨[], by simp, .unmoved rfl nofun⟩
  cases event with
  | activeChanged | opened uri => exact follow_accounts e t s calls
  | closed uri =>
    simp only [handle]
    split
    · rw [unbind_recorded]
      simpa using refresh_accounts e t (t.unbind e s).1 (t.unbind e s).2 calls [] nofun
    · exact unmoved
  | changed uri =>
    have hq : ∀ c ∈ [Call.opened uri], c.announces = false := by simp [Call.announces]
    have hask : e.recorded.open? uri (s, calls) =
        ((e.open? uri s).1, (e.open? uri s).2, calls ++ [.opened uri]) := rfl
    simp only [handle, hask]
    split
    · cases (e.open? uri s).1 with
      | none => exact refresh_accounts e t t _ calls _ hq
      | some d =>
        simp only [bind_recorded]
        exact refresh_accounts e t _ _ calls _ hq
    · exact unmoved

/-- Showing where a span begins asks for a document and moves the cursor, and tells nothing of the
outline. -/
private theorem revealSpan_recorded (e : Editor σ) (span : Nat × Nat) (uri : Option String) (s : σ)
    (calls : List Call) : ∃ told, (∀ c ∈ told, c.announces = false) ∧
      revealSpan e.recorded span uri (s, calls) = (revealSpan e span uri s, calls ++ told) := by
  cases uri with
  | none =>
    obtain ⟨answer, s', ha⟩ : ∃ answer s', e.active s = (answer, s') := ⟨_, _, rfl⟩
    simp only [revealSpan, Editor.recorded, ha]
    cases answer with
    | none => exact ⟨[.active], by decide, rfl⟩
    | some d =>
      exact ⟨[.active, .reveal d.uri (d.lineStartAt span.1)], by simp [Call.announces], by simp⟩
  | some uri =>
    obtain ⟨answer, s', ha⟩ : ∃ answer s', e.open? uri s = (answer, s') := ⟨_, _, rfl⟩
    simp only [revealSpan, Editor.recorded, ha]
    cases answer with
    | none => exact ⟨[.opened uri], by simp [Call.announces], rfl⟩
    | some d =>
      exact ⟨[.opened uri, .reveal d.uri (d.lineStartAt span.1)], by simp [Call.announces], by simp⟩

private theorem act_accounts (e : Editor σ) (a : Action) (t : Tracker) (s : σ) (calls : List Call) :
    Accounts t calls (act e t s a) (act e.recorded t (s, calls) a) := by
  cases a with
  | activate => exact follow_accounts e t _ calls
  | handle event => exact handle_accounts e event t s calls
  | execute command =>
    cases command with
    | showOutline => exact follow_accounts e t s calls
    | reveal span uri =>
      obtain ⟨told, hq, hr⟩ := revealSpan_recorded e span uri s calls
      exact ⟨told, congrArg (Prod.mk t) hr, .unmoved rfl hq⟩

/-! ### Runs -/

private theorem follow_boundTo (e : Editor σ) (t : Tracker) (s : σ) :
    ∃ d, (t.follow e s).1 = t.boundTo d :=
  ⟨_, follow_fst e t s⟩

/-- Every action binds the tracker anew, to a document or to none, and builds the outline that
belongs to it, or leaves all as it is. -/
private theorem act_boundTo (e : Editor σ) (t : Tracker) (s : σ) (a : Action) :
    (act e t s a).1 = t ∨ ∃ d, (act e t s a).1 = t.boundTo d := by
  cases a with
  | activate => exact .inr (follow_boundTo e t _)
  | handle event =>
    cases event with
    | activeChanged | opened uri => exact .inr (follow_boundTo e t s)
    | closed uri =>
      have hc := handle_closed_fst e uri t s
      split at hc
      · exact .inr ⟨_, hc⟩
      · exact .inl hc
    | changed uri =>
      have hc := handle_changed_fst e uri t s
      split at hc
      · exact .inr ⟨_, hc⟩
      · exact .inl hc
  | execute command =>
    cases command with
    | showOutline => exact .inr (follow_boundTo e t s)
    | reveal span uri => exact .inl rfl

private theorem act_upToDate (h : t.UpToDate) (e : Editor σ) (s : σ) (a : Action) :
    (act e t s a).1.UpToDate ∧ (act e t s a).1.source = t.source := by
  rcases act_boundTo e t s a with ha | ⟨d, ha⟩ <;> rw [ha]
  · exact ⟨h, rfl⟩
  · exact ⟨boundTo_upToDate t d, boundTo_source t d⟩

/-- The run lemma: an outline that belongs to its document does so after any actions, and labels
come from where they came. -/
private theorem actAll_upToDate (h : t.UpToDate) (e : Editor σ) (s : σ) (actions : List Action) :
    (actAll e t s actions).1.UpToDate ∧ (actAll e t s actions).1.source = t.source := by
  induction actions generalizing t s with
  | nil => exact ⟨h, rfl⟩
  | cons a actions ih =>
    obtain ⟨ha, hs⟩ := act_upToDate h e s a
    obtain ⟨hu, hsource⟩ := ih ha (act e t s a).2
    exact ⟨hu, hsource.trans hs⟩

/-- The same run with account kept goes the same way. -/
private theorem actAll_recorded (e : Editor σ) (t : Tracker) (s : σ) (calls : List Call)
    (actions : List Action) : ∃ told, actAll e.recorded t (s, calls) actions =
      ((actAll e t s actions).1, (actAll e t s actions).2, calls ++ told) := by
  induction actions generalizing t s calls with
  | nil => exact ⟨[], by simp [actAll]⟩
  | cons a actions ih =>
    obtain ⟨told, ha, _⟩ := act_accounts e a t s calls
    obtain ⟨more, hm⟩ := ih (act e t s a).1 (act e t s a).2 (calls ++ told)
    refine ⟨told ++ more, ?_⟩
    rw [actAll, List.foldl_cons, ha, ← List.append_assoc]
    exact hm

private theorem actAll_concat (e : Editor σ) (t : Tracker) (s : σ) (before : List Action)
    (a : Action) :
    actAll e t s (before ++ [a]) = act e (actAll e t s before).1 (actAll e t s before).2 a := by
  simp only [actAll, List.foldl_append, List.foldl_cons, List.foldl_nil]

/-- After every action of every run that a new tracker goes through, over an editor that may answer
anything at each call: the outline is the one of the tracked document, empty if that is malformed or
if there is none. In the action the tracker stays as it was and the editor is told nothing, or the
last call of all says that the outline was built again, the one before it complains of the document
tracked now if and only if that is malformed, and the others before them tell nothing. -/
theorem outline_and_calls_after_action (e : Editor σ) (s : σ) (source : LabelSource)
    (before : List Action) (a : Action) :
    let r := actAll e.recorded { source } (s, []) before
    let r' := actAll e.recorded { source } (s, []) (before ++ [a])
    (r'.1, r'.2.1) = actAll e { source } s (before ++ [a]) ∧ r'.1.source = source ∧
      r'.1.roots = (match r'.1.document with
        | none => []
        | some d =>
          match r'.1.build d with
          | .ok roots => roots
          | .error _ => []) ∧
      ∃ told, r'.2.2 = r.2.2 ++ told ∧
        (r'.1 = r.1 ∧ (∀ c ∈ told, c.announces = false) ∨
          ∃ asked, (∀ c ∈ asked, c.announces = false) ∧
            told = asked ++ r'.1.complaints ++ [.outlineChanged]) := by
  have hnew : ({ source } : Tracker).UpToDate := rfl
  obtain ⟨calls, hbefore⟩ := actAll_recorded e { source } s [] before
  obtain ⟨hu, hs⟩ := actAll_upToDate hnew e s (before ++ [a])
  obtain ⟨told, ha, hanswer⟩ := act_accounts e a (actAll e { source } s before).1
    (actAll e { source } s before).2 ([] ++ calls)
  rw [← actAll_concat] at ha hanswer
  have hafter := actAll_concat e.recorded { source } (s, []) before a
  rw [hbefore, ha] at hafter
  simp only [hafter, hbefore]
  refine ⟨trivial, hs, hu, told, rfl, ?_⟩
  cases hanswer with
  | unmoved same silent => exact .inl ⟨same, silent⟩
  | rebuilt asked silent htold => exact .inr ⟨asked, silent, htold⟩

end Tracker

end YamlOutline
