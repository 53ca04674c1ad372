import Mathlib.Data.List.Forall2
import YamlOutline.Proofs.Summary.Reading

/-! How a summary nests. Lines are numbered from top to bottom; the line right above another one in
the forest is the nearest one before it that is indented less. Lines are put before a forest one by
one, and each takes the trees at its front that are indented further. It takes all such trees, since
the trees of a forest are indented less and less. -/

namespace YamlOutline.Summary
variable {l : Line} {ls : List Line} {i : Nat} {above : Option Nat} {forest : List Entry}

mutual
/-- For an entry and all below it, from top to bottom, the number of the line right above:
`above` for the entry itself, which has the number `next`. -/
def Entry.parents (above : Option Nat) (next : Nat) : Entry → List (Option Nat)
  | ⟨_, children⟩ => above :: parentsIn (some next) (next + 1) children

def parentsIn (above : Option Nat) (next : Nat) : List Entry → List (Option Nat)
  | [] => []
  | e :: es => e.parents above next ++ parentsIn above (next + e.lines.length) es
end

/-- `above` is the number of the nearest line before line `i` that is indented less, if there is
one. -/
def Nearest (ls : List Line) (i : Nat) (above : Option Nat) : Prop :=
  ∃ l, ls[i]? = some l ∧
    match above with
    | some j => j < i ∧ (∃ m, ls[j]? = some m ∧ m.indent < l.indent) ∧
        ∀ k m, j < k → k < i → ls[k]? = some m → l.indent ≤ m.indent
    | none => ∀ k m, k < i → ls[k]? = some m → l.indent ≤ m.indent

/-- No tree of the forest is indented further than the ones before it. -/
def Falling (forest : List Entry) : Prop :=
  forest.Pairwise fun e f => f.line.indent ≤ e.line.indent

mutual
/-- The lines right below a line are indented further than it, none of them further than the ones
before it, and so on all the way down. -/
def Entry.Indented : Entry → Prop
  | ⟨line, children⟩ =>
    (∀ c ∈ children, line.indent < c.line.indent) ∧ Falling children ∧ AllIndented children

def AllIndented : List Entry → Prop
  | [] => True
  | e :: es => e.Indented ∧ AllIndented es
end

/-! ### Indentation -/

private theorem allIndented_iff : AllIndented forest ↔ ∀ e ∈ forest, e.Indented := by
  induction forest with
  | nil => simp [AllIndented]
  | cons e es ih => simp [AllIndented, ih]

mutual
/-- Nothing below a line is indented less. -/
private theorem Entry.Indented.le :
    (e : Entry) → e.Indented → ∀ m ∈ e.lines, e.line.indent ≤ m.indent
  | ⟨line, children⟩, h, m, hm => by
    obtain ⟨hdeeper, -, hall⟩ := h
    rcases List.mem_cons.mp hm with rfl | hm
    · exact Nat.le_refl _
    · obtain ⟨c, hc, hle⟩ := AllIndented.le children hall m hm
      exact Nat.le_trans (Nat.le_of_lt (hdeeper c hc)) hle

private theorem AllIndented.le : (es : List Entry) → AllIndented es →
    ∀ m ∈ linesIn es, ∃ e ∈ es, e.line.indent ≤ m.indent
  | [], _, _, hm => nomatch hm
  | e :: es, h, m, hm => by
    rcases List.mem_append.mp hm with hm | hm
    · exact ⟨e, List.mem_cons_self, Entry.Indented.le e h.1 m hm⟩
    · obtain ⟨f, hf, hle⟩ := AllIndented.le es h.2 m hm
      exact ⟨f, List.mem_cons_of_mem e hf, hle⟩
end

/-- What a line takes is indented further, and nothing that it leaves is. -/
private theorem Falling.le_of_mem_dropWhile (h : Falling forest) :
    ∀ e ∈ forest.dropWhile (l.indent < ·.line.indent), e.line.indent ≤ l.indent := by
  induction forest with
  | nil => nofun
  | cons f fs ih =>
    obtain ⟨hf, hfs⟩ := List.pairwise_cons.mp h
    by_cases hlt : l.indent < f.line.indent
    · rw [List.dropWhile_cons_of_pos (by simpa using hlt)]
      exact ih hfs
    · rw [List.dropWhile_cons_of_neg (by simpa using hlt)]
      have hle : f.line.indent ≤ l.indent := Nat.le_of_not_lt hlt
      exact List.forall_mem_cons.mpr ⟨hle, fun e he => Nat.le_trans (hf e he) hle⟩

private theorem insert_indented (l : Line) (hf : Falling forest) (ha : AllIndented forest) :
    Falling (insert l forest) ∧ AllIndented (insert l forest) := by
  have htaken : forest.takeWhile (l.indent < ·.line.indent) <+: forest := List.takeWhile_prefix _
  have hleft : forest.dropWhile (l.indent < ·.line.indent) <:+ forest := List.dropWhile_suffix _
  have hdeeper : ∀ c ∈ forest.takeWhile (l.indent < ·.line.indent), l.indent < c.line.indent :=
    fun c hc => by simpa using List.mem_takeWhile_imp hc
  constructor
  · exact List.pairwise_cons.mpr ⟨hf.le_of_mem_dropWhile, hf.sublist hleft.sublist⟩
  · refine ⟨⟨hdeeper, hf.sublist htaken.sublist, ?_⟩, ?_⟩
    · exact allIndented_iff.mpr fun e he => allIndented_iff.mp ha e (htaken.subset he)
    · exact allIndented_iff.mpr fun e he => allIndented_iff.mp ha e (hleft.subset he)

/-! ### Numbers of lines -/

private theorem parentsIn_append (above : Option Nat) (next : Nat) (es fs : List Entry) :
    parentsIn above next (es ++ fs) =
      parentsIn above next es ++ parentsIn above (next + (linesIn es).length) fs := by
  induction es generalizing next with
  | nil => rfl
  | cons e es ih =>
    rw [List.cons_append, parentsIn, parentsIn, ih, linesIn, List.length_append, List.append_assoc,
      Nat.add_assoc]

mutual
/-- The numbers count from the first line of the forest, and what has no line above it in the forest
stands below `above`. -/
private theorem Entry.parents_eq (above : Option Nat) (next : Nat) : (e : Entry) →
    e.parents above next = (e.parents none 0).map fun o => (o.map (· + next)).or above
  | ⟨_, children⟩ => by
    rw [Entry.parents, Entry.parents, parentsIn_eq (some next), parentsIn_eq (some 0), List.map_cons,
      List.map_map]
    congr 2
    funext o
    cases o <;> simp [Nat.add_assoc, Nat.add_comm next 1]

private theorem parentsIn_eq (above : Option Nat) (next : Nat) : (es : List Entry) →
    parentsIn above next es = (parentsIn none 0 es).map fun o => (o.map (· + next)).or above
  | [] => rfl
  | e :: es => by
    rw [parentsIn, parentsIn, Entry.parents_eq above next e, parentsIn_eq above _ es,
      parentsIn_eq none (0 + e.lines.length) es, List.map_append, List.map_map]
    congr 2
    funext o
    cases o <;> simp [Nat.add_comm, Nat.add_left_comm]
end

mutual
private theorem Entry.length_parents (above : Option Nat) (next : Nat) : (e : Entry) →
    (e.parents above next).length = e.lines.length
  | ⟨_, children⟩ => by
    rw [Entry.parents, Entry.lines, List.length_cons, List.length_cons, length_parentsIn _ _ children]

private theorem length_parentsIn (above : Option Nat) (next : Nat) : (es : List Entry) →
    (parentsIn above next es).length = (linesIn es).length
  | [] => rfl
  | e :: es => by
    rw [parentsIn, linesIn, List.length_append, List.length_append, Entry.length_parents _ _ e,
      length_parentsIn _ _ es]
end

/-- Below every line that is no root of the forest stands a number. -/
private theorem ne_none_of_mem_parentsIn (j next : Nat) (es : List Entry) :
    none ∉ parentsIn (some j) next es := by
  rw [parentsIn_eq]
  intro h
  obtain ⟨o, -, ho⟩ := List.mem_map.mp h
  cases o <;> cases ho

/-- What has no line above it is a root. -/
private theorem line_of_no_parent (h : (parentsIn none 0 forest)[i]? = some none) :
    ∃ e ∈ forest, (linesIn forest)[i]? = some e.line := by
  induction forest generalizing i with
  | nil => cases h
  | cons e es ih =>
    obtain ⟨line, children⟩ := e
    rw [parentsIn, parentsIn_eq none] at h
    rw [linesIn]
    by_cases hi : i < (Entry.lines ⟨line, children⟩).length
    · rw [List.getElem?_append_left (by rwa [Entry.length_parents])] at h
      rw [List.getElem?_append_left hi]
      cases i with
      | zero => exact ⟨_, List.mem_cons_self, rfl⟩
      | succ i =>
        rw [Entry.parents, List.getElem?_cons_succ] at h
        exact absurd (List.mem_of_getElem? h) (ne_none_of_mem_parentsIn _ _ _)
    · rw [List.getElem?_append_right (by rw [Entry.length_parents]; omega), Entry.length_parents,
        List.getElem?_map, Option.map_eq_some_iff] at h
      obtain ⟨o, ho, hnone⟩ := h
      obtain rfl : o = none := by simpa using hnone
      obtain ⟨e, he, hline⟩ := ih ho
      rw [List.getElem?_append_right (by omega)]
      exact ⟨e, List.mem_cons_of_mem _ he, hline⟩

/-! ### The nearest line that is indented less -/

/-- A line put before the others is the nearest one for those that had none, if they are indented
further. -/
private theorem Nearest.below (h : Nearest ls i above)
    (hl : ∀ m, ls[i]? = some m → l.indent < m.indent) :
    Nearest (l :: ls) (i + 1) ((above.map (· + 1)).or (some 0)) := by
  obtain ⟨m, hm, h⟩ := h
  refine ⟨m, hm, ?_⟩
  cases above with
  | some j =>
    obtain ⟨hj, hless, hbetween⟩ := h
    refine ⟨Nat.succ_lt_succ hj, hless, fun k m' hk hki hm' => ?_⟩
    obtain ⟨k, rfl⟩ := Nat.exists_eq_succ_of_ne_zero (Nat.ne_zero_of_lt hk)
    exact hbetween k m' (Nat.lt_of_succ_lt_succ hk) (Nat.lt_of_succ_lt_succ hki) hm'
  | none =>
    refine ⟨Nat.succ_pos i, ⟨l, rfl, hl m hm⟩, fun k m' hk hki hm' => ?_⟩
    obtain ⟨k, rfl⟩ := Nat.exists_eq_succ_of_ne_zero (Nat.ne_zero_of_lt hk)
    exact h k m' (Nat.lt_of_succ_lt_succ hki) hm'

/-- A line put before the others changes nothing for those that are not indented further. -/
private theorem Nearest.beside (h : Nearest ls i above)
    (hl : above = none → ∀ m, ls[i]? = some m → m.indent ≤ l.indent) :
    Nearest (l :: ls) (i + 1) (above.map (· + 1)) := by
  obtain ⟨m, hm, h⟩ := h
  refine ⟨m, hm, ?_⟩
  cases above with
  | some j =>
    obtain ⟨hj, hless, hbetween⟩ := h
    refine ⟨Nat.succ_lt_succ hj, hless, fun k m' hk hki hm' => ?_⟩
    obtain ⟨k, rfl⟩ := Nat.exists_eq_succ_of_ne_zero (Nat.ne_zero_of_lt hk)
    exact hbetween k m' (Nat.lt_of_succ_lt_succ hk) (Nat.lt_of_succ_lt_succ hki) hm'
  | none =>
    intro k m' hki hm'
    cases k with
    | zero =>
      obtain rfl : l = m' := Option.some.inj hm'
      exact hl rfl m hm
    | succ k => exact h k m' (Nat.lt_of_succ_lt_succ hki) hm'

/-- Every line stands below the nearest line before it that is indented less. -/
def Nested (forest : List Entry) : Prop :=
  ∀ i above, (parentsIn none 0 forest)[i]? = some above → Nearest (linesIn forest) i above

private theorem nested_nil : Nested [] := by
  intro i above h
  rw [parentsIn, List.getElem?_nil] at h
  cases h

/-- A line put before a forest is numbered 0. What it takes stands below it now or where it stood
before, and what it leaves stands where it stood before. -/
private theorem Nested.put {taken left : List Entry} (hn : Nested (taken ++ left))
    (htaken : ∀ m ∈ linesIn taken, l.indent < m.indent)
    (hleft : ∀ e ∈ left, e.line.indent ≤ l.indent) : Nested (⟨l, taken⟩ :: left) := by
  rw [Nested, parentsIn_append, linesIn_append, parentsIn_eq none (0 + _)] at hn
  intro i above h
  rw [linesIn, Entry.lines, List.cons_append]
  rw [parentsIn, Entry.parents, parentsIn_eq (some 0), parentsIn_eq none (0 + _), Entry.lines,
    List.cons_append] at h
  cases i with
  | zero =>
    obtain rfl : none = above := Option.some.inj h
    exact ⟨l, rfl, nofun⟩
  | succ i =>
    rw [List.getElem?_cons_succ] at h
    by_cases hi : i < (linesIn taken).length
    · rw [List.getElem?_append_left (by simpa [length_parentsIn] using hi), List.getElem?_map,
        Option.map_eq_some_iff] at h
      obtain ⟨o, ho, rfl⟩ := h
      have hnearest := hn i o (by rwa [List.getElem?_append_left (by rwa [length_parentsIn])])
      refine hnearest.below fun m hm => htaken m ?_
      rw [List.getElem?_append_left hi] at hm
      exact List.mem_of_getElem? hm
    · have hi : (linesIn taken).length ≤ i := Nat.le_of_not_lt hi
      rw [List.getElem?_append_right (by simpa [length_parentsIn] using hi), List.length_map,
        length_parentsIn, List.getElem?_map, Option.map_eq_some_iff] at h
      obtain ⟨o, ho, rfl⟩ := h
      have hnearest := hn i (o.map (· + (linesIn taken).length)) (by
        rw [List.getElem?_append_right (by rwa [length_parentsIn]), length_parentsIn,
          List.getElem?_map, ho]
        simp)
      have hbeside := hnearest.beside (l := l) fun hnone m hm => by
        obtain rfl : o = none := by simpa using hnone
        obtain ⟨e, he, hline⟩ := line_of_no_parent ho
        rw [List.getElem?_append_right hi, hline] at hm
        obtain rfl := Option.some.inj hm
        exact hleft e he
      have hsame : (o.map (· + (0 + ((linesIn taken).length + 1)))).or none =
          (o.map (· + (linesIn taken).length)).map (· + 1) := by
        cases o <;> simp [Nat.add_assoc]
      rwa [List.length_cons, hsame]

private theorem insert_nested (l : Line) (hf : Falling forest) (ha : AllIndented forest)
    (hn : Nested forest) : Nested (insert l forest) := by
  have hall : AllIndented (forest.takeWhile (l.indent < ·.line.indent)) :=
    allIndented_iff.mpr fun e he =>
      allIndented_iff.mp ha e ((List.takeWhile_prefix _).subset he)
  refine Nested.put (by rwa [List.takeWhile_append_dropWhile]) (fun m hm => ?_) hf.le_of_mem_dropWhile
  obtain ⟨c, hc, hle⟩ := hall.le _ m hm
  exact Nat.lt_of_lt_of_le (by simpa using List.mem_takeWhile_imp hc) hle

/-! ### Reading a summary -/

/-- Every line that is not blank is read. -/
private theorem Line.ofText?_isSome (cs : List Char) :
    (Line.ofText? cs).isSome = !cs.all Text.isBlank := by
  have hstart : Text.trimStart cs = [] ↔ cs.all Text.isBlank = true := by
    simp [Text.trimStart, List.dropWhile_eq_nil_iff]
  unfold Line.ofText?
  cases hb : Text.trimStart cs with
  | nil => simpa using hstart.mp hb
  | cons c r =>
    have hne : ¬ cs.all Text.isBlank = true := fun h => by simp [hstart.mpr h] at hb
    simpa using hne

private theorem map_some_linesOf (text : String) : (linesOf text).map some =
    ((Text.rows text.toList).filter (!·.all Text.isBlank)).map Line.ofText? := by
  rw [linesOf]
  induction Text.rows text.toList with
  | nil => rfl
  | cons row rows ih =>
    have hrow := Line.ofText?_isSome row
    cases hl : Line.ofText? row with
    | none => simp_all
    | some l => simp_all

/-- A summary is read as the forest that its indentation spells: its lines from top to bottom are
those of the text that are not blank, each right below the nearest one before it that is indented
less. So every line is indented further than the one that it stands below, and no line further than
those before it that stand below the same one. -/
theorem parse_nests (text : String) :
    (linesIn (parse text)).map some =
        ((Text.rows text.toList).filter (!·.all Text.isBlank)).map Line.ofText? ∧
      List.Forall₂ (Nearest (linesIn (parse text))) (List.range (linesIn (parse text)).length)
        (parentsIn none 0 (parse text)) ∧
      Falling (parse text) ∧ AllIndented (parse text) := by
  have hread : Nested (parse text) ∧ Falling (parse text) ∧ AllIndented (parse text) := by
    rw [parse_eq_foldr]
    induction linesOf text with
    | nil => exact ⟨nested_nil, .nil, trivial⟩
    | cons l ls ih =>
      obtain ⟨hn, hf, ha⟩ := ih
      exact ⟨insert_nested l hf ha hn, insert_indented l hf ha⟩
  refine ⟨by rw [linesIn_parse, map_some_linesOf], ?_, hread.2⟩
  refine List.forall₂_iff_get.mpr ⟨by rw [List.length_range, length_parentsIn], fun i _ hi => ?_⟩
  simpa using hread.1 i _ (List.getElem?_eq_getElem hi)

/-- A line that is indented less than the first one, and one on a level where no other line is. -/
example : parentsIn none 0 (parse "    a\n  b\n      c\n\n    d\ne") =
    [none, none, some 1, some 1, none] := by
  decide +kernel

end YamlOutline.Summary
