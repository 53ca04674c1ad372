import YamlOutline.Proofs.Session.Operation

/-! Runs of a session: from the first outline on, operations of the session and operations on its
workspace alone, in any order. The outline follows the focus and the text through all of them. -/

namespace YamlOutline.Session

/-- One step of a run. What is done to the workspace alone stays queued until the session delivers. -/
inductive Step where
  | own (op : Operation)
  | workspace (op : Workspace.Operation)

def Step.run (s : Session) : Step → Session
  | .own op => op.run s
  | .workspace op => { s with workspace := op.run s.disk s.workspace }

def run (s : Session) (steps : List Step) : Session :=
  steps.foldl Step.run s

/-- The session that shows the first outline of some open documents. -/
def started (disk : Files.Disk) (tracker : Tracker) (documents : List Document)
    (extensions : List String) : Session :=
  (new disk tracker (.ofDocuments documents extensions)).start

/-- Where a step keeps `P` exactly if it does not break it, `P` holds all the way through a run exactly
if no step of the run breaks it. What every step keeps may be counted on. -/
theorem foldl_keeps_iff {σ α : Type} {step : σ → α → σ} {P Q : σ → Prop} {Breaks : σ → α → Prop}
    {xs : List α} (hQ : ∀ s, Q s → ∀ x ∈ xs, Q (step s x))
    (hP : ∀ s, Q s → P s → ∀ x ∈ xs, (P (step s x) ↔ ¬ Breaks s x)) {s : σ} (hq : Q s) (hp : P s) :
    (∀ pre, pre <+: xs → P (pre.foldl step s)) ↔
      ∀ pre x, pre ++ [x] <+: xs → ¬ Breaks (pre.foldl step s) x := by
  -- After the first step `P` holds again exactly if that step breaks nothing, so in both directions
  -- the first step is settled before the rest of the run.
  induction xs generalizing s with
  | nil =>
    refine iff_of_true (fun pre hpre => ?_) fun pre x hpre => ?_
    · rw [List.prefix_nil.mp hpre]
      exact hp
    · simp at hpre
  | cons x xs ih =>
    have hfirst := hP s hq hp x List.mem_cons_self
    have hq' := hQ s hq x List.mem_cons_self
    have ih' (hp' : P (step s x)) := ih (fun s h y hy => hQ s h y (List.mem_cons_of_mem x hy))
      (fun s h h' y hy => hP s h h' y (List.mem_cons_of_mem x hy)) hq' hp'
    constructor
    · intro hall pre y hpre
      have hp' : P (step s x) := hall [x] (by simp)
      cases pre with
      | nil =>
        simp only [List.nil_append, List.cons_prefix_cons, List.nil_prefix, and_true] at hpre
        exact hpre ▸ hfirst.mp hp'
      | cons z zs =>
        obtain ⟨rfl, hzs⟩ := List.cons_prefix_cons.mp hpre
        refine (ih' hp').mp (fun pre hpre => ?_) zs y hzs
        exact hall (z :: pre) (List.cons_prefix_cons.mpr ⟨rfl, hpre⟩)
    · intro hnone pre hpre
      cases pre with
      | nil => exact hp
      | cons z zs =>
        obtain ⟨rfl, hzs⟩ := List.cons_prefix_cons.mp hpre
        have hp' : P (step s z) := hfirst.mpr (hnone [] z (by simp))
        refine (ih' hp').mpr (fun pre y hpre => ?_) zs hzs
        exact hnone (z :: pre) y (List.cons_prefix_cons.mpr ⟨rfl, hpre⟩)

variable {s : Session}

private theorem Step.run_source (h : s.tracker.InStep s.workspace) (step : Step) :
    (step.run s).tracker.source = s.tracker.source := by
  cases step with
  | own op => exact (op.run_outcome h).source
  | workspace op => rfl

private theorem Step.run_inStep (h : s.tracker.InStep s.workspace) (step : Step) :
    (step.run s).tracker.InStep (step.run s).workspace := by
  cases step with
  | own op => exact (op.run_outcome h).inStep
  | workspace op =>
    exact h.announced (op.run_announced s.disk) (Workspace.Operation.run_sound h.sound s.disk op)

/-- The run lemma: a session in step stays so, and its labels come from where they came. -/
theorem run_inStep (h : s.tracker.InStep s.workspace) (steps : List Step) :
    (s.run steps).tracker.InStep (s.run steps).workspace ∧
      (s.run steps).tracker.source = s.tracker.source := by
  induction steps generalizing s with
  | nil => exact ⟨h, rfl⟩
  | cons step steps ih =>
    obtain ⟨hi, hs⟩ := ih (step.run_inStep h)
    exact ⟨hi, hs.trans (step.run_source h)⟩

/-- The first look-up of the active document puts any tracker in step, whatever it held before. -/
theorem activate_inStep (hw : s.workspace.Sound) (hp : s.workspace.pending = []) :
    (s.track fun e t w => t.activate e w).tracker.InStep
      (s.track fun e t w => t.activate e w).workspace := by
  let noted : Workspace :=
    { s.workspace with notes := s.workspace.notes ++ [⟨.info, .events, "yamltree activated"⟩] }
  have hn : noted.Sound := ⟨hw.distinct, hw.inRange⟩
  have hr : noted.Redrawn (s.tracker.follow (Workspace.editor s.disk) noted).2 :=
    s.tracker.follow_redrawn s.disk noted
  have ht : (s.tracker.follow (Workspace.editor s.disk) noted).1 = s.tracker.boundTo noted.activeYaml :=
    s.tracker.follow_fst ..
  change (s.tracker.follow (Workspace.editor s.disk) noted).1.InStep
    (s.tracker.follow (Workspace.editor s.disk) noted).2
  refine ⟨hr.grows.sound hn, ?_, ?_⟩
  · rw [ht]
    exact Tracker.boundTo_upToDate ..
  · rw [hr.pending, ht, show noted.pending = [] from hp]
    exact .there (hr.grows.activeYaml hn).symm

theorem started_inStep {documents : List Document} (h : (documents.map Document.uri).Nodup)
    (disk : Files.Disk) (tracker : Tracker) (extensions : List String) :
    (started disk tracker documents extensions).tracker.InStep
      (started disk tracker documents extensions).workspace :=
  sync_inStep (activate_inStep (.ofDocuments h extensions) rfl)

private theorem started_source (disk : Files.Disk) (tracker : Tracker) (documents : List Document)
    (extensions : List String) :
    (started disk tracker documents extensions).tracker.source = tracker.source := by
  rw [started, start, sync_tracker, (drain_delivers _).source]
  obtain ⟨w, hw⟩ := tracker.activate_fst (Workspace.editor disk)
    (new disk tracker (.ofDocuments documents extensions)).workspace
  exact (congrArg Tracker.source hw).trans (Tracker.boundTo_source ..)

/-- The outline mirrors the active document: at the start, after every delivery that follows any
run, and after any run with nothing queued. Every operation of the session ends with the outline in
place or has touched nothing that bears on it, and the source of the labels is never another. -/
theorem outline_mirrors_activeDocument (disk : Files.Disk) (tracker : Tracker)
    (documents : List Document) (extensions : List String)
    (h : (documents.map Document.uri).Nodup) (steps : List Step) :
    (started disk tracker documents extensions).Mirrors ∧
      ∀ s, (started disk tracker documents extensions).run steps = s →
        s.tracker.source = tracker.source ∧ s.sync.Mirrors ∧
          (s.workspace.pending = [] → s.Mirrors) ∧
          ∀ op : Operation, (op.run s).Mirrors ∨ s.Untouched (op.run s) := by
  have hi := started_inStep h disk tracker extensions
  refine ⟨mirrors_of_quiet hi (sync_pending _), ?_⟩
  rintro s rfl
  obtain ⟨hr, hs⟩ := run_inStep hi steps
  refine ⟨hs.trans (started_source ..), sync_mirrors hr, mirrors_of_quiet hr, fun op => ?_⟩
  exact (op.run_outcome hr).mirrors_or_untouched

/-- The second of two files gets the focus, the first is asked for, and the second is closed, all
before the next delivery. -/
theorem outline_mirrors_after_queued_close :
    ([⟨"a.yaml", "yaml", "k: 1\n"⟩, ⟨"b.yaml", "yaml", "l: 2\n"⟩].map Document.uri).Nodup ∧
      ((started (.ofFolder [] []) {} [⟨"a.yaml", "yaml", "k: 1\n"⟩, ⟨"b.yaml", "yaml", "l: 2\n"⟩] []).run
        [.workspace (.focus 1), .workspace (.openDocument "a.yaml"), .workspace .closeActive]).sync.Mirrors := by
  have h : ([⟨"a.yaml", "yaml", "k: 1\n"⟩, ⟨"b.yaml", "yaml", "l: 2\n"⟩].map Document.uri).Nodup := by
    decide
  exact ⟨h, ((outline_mirrors_activeDocument (.ofFolder [] []) {} _ [] h _).2 _ rfl).2.1⟩

end YamlOutline.Session
