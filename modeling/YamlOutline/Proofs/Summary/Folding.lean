import YamlOutline.Summary.Basic

/-! A summary is read from its first line on, with the entries that wait for children. The forest is
the one that comes of its lines from the last one on, where each takes the trees behind it that are
indented further: at every line, what waits takes in the end what stands behind it. -/

namespace YamlOutline.Summary

/-- An entry before a forest takes the trees at its front that are indented further as its last
children. -/
def Entry.take (e : Entry) (forest : List Entry) : List Entry :=
  { e with children := e.children ++ forest.takeWhile (e.line.indent < ·.line.indent) } ::
    forest.dropWhile (e.line.indent < ·.line.indent)

/-- Puts a line before a forest: the trees at its front that are indented further become its
children. -/
def insert (l : Line) (forest : List Entry) : List Entry :=
  ⟨l, forest.takeWhile (l.indent < ·.line.indent)⟩ :: forest.dropWhile (l.indent < ·.line.indent)

/-- The forest begins with nothing that is indented further than `indent`. -/
def EndsAt (indent : Nat) (forest : List Entry) : Prop :=
  ∀ e, forest.head? = some e → e.line.indent ≤ indent

/-- Every entry that waits is indented further than the one around it. -/
def Inward (waiting : List Entry) : Prop :=
  (waiting.map (·.line.indent)).Pairwise (· > ·)

/-- What a reading comes to if a forest stands behind it: the waiting entries take of it in turn, the
innermost first. -/
def Reading.before (r : Reading) (forest : List Entry) : List Entry :=
  r.complete ++ r.waiting.foldl (fun forest e => e.take forest) forest

variable {e parent : Entry} {outer complete forest : List Entry} {l : Line}
  {closes : Line → Bool} {r : Reading}

private theorem take_of_endsAt (h : EndsAt e.line.indent forest) : e.take forest = e :: forest := by
  obtain ⟨line, children⟩ := e
  cases forest with
  | nil => simp [Entry.take]
  | cons f forest =>
    have hf : f.line.indent ≤ line.indent := h f rfl
    simp [Entry.take, hf]

/-- To close an entry is to have it taken by the one around it. -/
private theorem take_cons (h : parent.line.indent < e.line.indent) (forest : List Entry) :
    parent.take (e :: forest) = (parent.adopt e).take forest := by
  have htaken (taken : List Entry) :
      parent.children ++ e :: taken = (parent.adopt e).children ++ taken := by simp [Entry.adopt]
  simp only [Entry.take, List.takeWhile_cons, List.dropWhile_cons, decide_eq_true h, if_true, htaken]
  rfl

/-- Entries that take nothing of what is behind them may be closed. -/
private theorem before_closeWhile (hin : Inward (e :: outer))
    (hends : ∀ l : Line, closes l = true → EndsAt l.indent forest) :
    (closeWhile closes complete e outer).before forest =
      Reading.before ⟨e :: outer, complete⟩ forest := by
  induction outer generalizing e with
  | nil =>
    rw [closeWhile]
    split
    · rename_i hcloses
      simp [Reading.before, take_of_endsAt (hends _ hcloses)]
    · rfl
  | cons parent outer ih =>
    rw [closeWhile]
    split
    · rename_i hcloses
      obtain ⟨hinner, houter⟩ := List.pairwise_cons.mp hin
      have hadopt : Inward (parent.adopt e :: outer) := houter
      rw [ih hadopt]
      simp [Reading.before, take_of_endsAt (hends _ hcloses), take_cons (hinner _ List.mem_cons_self)]
    · rfl

/-- What still waits was there before, up to its children, and the innermost of it is not to be closed. -/
private theorem waiting_closeWhile (hin : Inward (e :: outer)) :
    Inward (closeWhile closes complete e outer).waiting ∧
      ∀ f ∈ (closeWhile closes complete e outer).waiting.head?, closes f.line = false := by
  induction outer generalizing e with
  | nil =>
    rw [closeWhile]
    split
    · exact ⟨.nil, nofun⟩
    · rename_i hstays
      exact ⟨hin, by simpa using hstays⟩
  | cons parent outer ih =>
    rw [closeWhile]
    split
    · exact ih (List.pairwise_cons.mp hin).2
    · rename_i hstays
      exact ⟨hin, by simpa using hstays⟩

namespace Reading

private theorem before_close (hin : Inward r.waiting)
    (hends : ∀ l : Line, closes l = true → EndsAt l.indent forest) :
    (r.close closes).before forest = r.before forest := by
  obtain ⟨_ | ⟨e, outer⟩, complete⟩ := r
  · rfl
  · exact before_closeWhile hin hends

private theorem waiting_close (closes : Line → Bool) (hin : Inward r.waiting) :
    Inward (r.close closes).waiting ∧
    ∀ f ∈ (r.close closes).waiting.head?, closes f.line = false := by
  obtain ⟨_ | ⟨e, outer⟩, complete⟩ := r
  · exact ⟨.nil, nofun⟩
  · exact waiting_closeWhile hin

/-- A line that is read is a line that stands before what is behind it. -/
private theorem before_add (hin : Inward r.waiting) (l : Line) (forest : List Entry) :
    (r.add l).before forest = r.before (insert l forest) := by
  have hends (m : Line) (hm : decide (l.indent ≤ m.indent) = true) : EndsAt m.indent (insert l forest) := by
    rintro e ⟨⟩
    simpa using hm
  rw [← before_close hin hends]
  simp [add, before, insert, Entry.take]

private theorem inward_add (hin : Inward r.waiting) (l : Line) : Inward (r.add l).waiting := by
  obtain ⟨hwaiting, hstays⟩ := waiting_close (l.indent ≤ ·.indent) hin
  have hadd : (r.add l).waiting = ⟨l, []⟩ :: (r.close (l.indent ≤ ·.indent)).waiting := rfl
  rw [hadd]
  generalize (r.close (l.indent ≤ ·.indent)).waiting = waiting at hwaiting hstays
  cases waiting with
  | nil => exact List.pairwise_singleton _ _
  | cons e outer =>
    have hless : e.line.indent < l.indent := by simpa using hstays e rfl
    refine List.pairwise_cons.mpr ⟨List.forall_mem_cons.mpr ⟨hless, fun indent hm => ?_⟩, hwaiting⟩
    exact Nat.lt_trans ((List.pairwise_cons.mp hwaiting).1 indent hm) hless

private theorem inward_foldl (hin : Inward r.waiting) (ls : List Line) :
    Inward (ls.foldl add r).waiting := by
  induction ls generalizing r with
  | nil => exact hin
  | cons l ls ih => exact ih (inward_add hin l)

private theorem before_foldl (hin : Inward r.waiting) (ls : List Line) :
    (ls.foldl add r).before [] = r.before (ls.foldr insert []) := by
  induction ls generalizing r with
  | nil => rfl
  | cons l ls ih => rw [List.foldl_cons, ih (inward_add hin l), before_add hin, List.foldr_cons]

end Reading

/-- Reading a summary puts every line before the forest of the lines behind it. -/
theorem parse_eq_foldr (text : String) : parse text = (linesOf text).foldr insert [] := by
  have hempty : Inward ({} : Reading).waiting := .nil
  have hin : Inward ((linesOf text).foldl Reading.add {}).waiting := Reading.inward_foldl hempty _
  have hread := Reading.before_foldl hempty (linesOf text)
  rw [parse]
  generalize (linesOf text).foldl Reading.add {} = r at hin hread
  -- nothing waits any more once all is closed
  have hdone : (r.close fun _ => true).waiting = [] := by
    obtain ⟨-, hstays⟩ := Reading.waiting_close (fun _ => true) hin
    generalize (r.close fun _ => true).waiting = waiting at hstays
    cases waiting with
    | nil => rfl
    | cons e outer => cases hstays e rfl
  have hclose : (r.close fun _ => true).before [] = r.before [] :=
    Reading.before_close hin (by simp [EndsAt])
  calc (r.close fun _ => true).complete
    _ = (r.close fun _ => true).before [] := by simp [Reading.before, hdone]
    _ = r.before [] := hclose
    _ = (linesOf text).foldr insert [] := by simpa [Reading.before] using hread

end YamlOutline.Summary
