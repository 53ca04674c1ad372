import Mathlib.Data.List.Chain
import YamlOutline.Outline.Branch
import YamlOutline.Proofs.Outline.Unfolding
import YamlOutline.Session.Basic

/-! The lines that join the rows of an outline to a tree. Every row is drawn on its own, from the guides that
it has. That the lines meet is a matter of the order of the rows: below a row stands its first child, or the
next sibling of its item or of one above it, and no item that is left behind has another sibling. -/

namespace YamlOutline

namespace Outline

/-! ### Rows below each other -/

/-- For every item on the way from the roots to that of the row, whether a sibling follows it. -/
def Row.lines (r : Row) : List Bool :=
  r.guides ++ [!r.isLast]

/-- One row may stand right below another one: as its first child, or as the next sibling of its item or of
one above it. -/
inductive Joins (above below : Row) : Prop
  | child (isMore : Bool) (h : below.lines = above.lines ++ [isMore])
  | sibling (shared : List Bool) (n : Nat) (isMore : Bool)
      (ha : above.lines = shared ++ true :: List.replicate n false) (hb : below.lines = shared ++ [isMore])

section
variable {expanded : List (List Nat)} {r : Row}

private theorem exists_rowsOf_eq (expanded : List (List Nat)) (path : List Nat) (guides : List Bool)
    (isLast : Bool)
    (t : Item) : ∃ rows, rowsOf expanded path guides isLast t = t.row expanded path guides isLast :: rows := by
  cases h : (t.row expanded path guides isLast).expanded with
  | true => exact ⟨_, rowsOf_of_expanded h⟩
  | false => exact ⟨[], rowsOf_of_not_expanded h⟩

/-- The first of some siblings. -/
private theorem lines_of_mem_head? {parent : List Nat} {guides : List Bool} {index : Nat}
    {ts : List Item}
    (h : r ∈ (rowsFrom expanded parent guides index ts).head?) : ∃ isMore, r.lines = guides ++ [isMore] := by
  cases ts with
  | nil =>
    rw [rowsFrom] at h
    cases h
  | cons t ts =>
    obtain ⟨rows, hrows⟩ := exists_rowsOf_eq expanded (parent ++ [index]) guides ts.isEmpty t
    rw [rowsFrom, hrows, List.cons_append, List.head?_cons] at h
    cases h
    exact ⟨_, rfl⟩

mutual
/-- From an item to the last row below it, no item but the first one has another sibling. -/
private theorem lines_of_mem_getLast?_rowsOf (path : List Nat) (guides : List Bool)
    (isLast : Bool) : (t : Item) →
    ∀ r ∈ (rowsOf expanded path guides isLast t).getLast?,
      ∃ n, r.lines = guides ++ (!isLast) :: List.replicate n false
  | ⟨label, kind, span, children⟩ => by
    intro r hr
    rw [rowsOf] at hr
    split at hr
    · rw [List.getLast?_cons] at hr
      cases hlast : (rowsFrom expanded path (guides ++ [!isLast]) 0 children).getLast? with
      | none =>
        rw [hlast] at hr
        cases hr
        exact ⟨0, rfl⟩
      | some z =>
        rw [hlast] at hr
        cases hr
        obtain ⟨n, hn⟩ := lines_of_mem_getLast?_rowsFrom path _ 0 children _ hlast
        exact ⟨n, hn.trans (List.append_assoc ..)⟩
    · cases hr
      exact ⟨0, rfl⟩

private theorem lines_of_mem_getLast?_rowsFrom (parent : List Nat) (guides : List Bool)
    (index : Nat) :
    (ts : List Item) → ∀ r ∈ (rowsFrom expanded parent guides index ts).getLast?,
      ∃ n, r.lines = guides ++ List.replicate n false
  | [] => by
    intro r hr
    rw [rowsFrom] at hr
    cases hr
  | [t] => by
    intro r hr
    rw [rowsFrom, rowsFrom, List.append_nil] at hr
    obtain ⟨n, hn⟩ := lines_of_mem_getLast?_rowsOf _ guides _ t r hr
    exact ⟨n + 1, hn⟩
  | t :: u :: ts => by
    intro r hr
    have hne : rowsFrom expanded parent guides (index + 1) (u :: ts) ≠ [] := by
      obtain ⟨rows, hrows⟩ := exists_rowsOf_eq expanded (parent ++ [index + 1]) guides ts.isEmpty u
      rw [rowsFrom, hrows]
      exact List.cons_ne_nil _ _
    rw [rowsFrom, List.getLast?_append_of_ne_nil _ hne] at hr
    exact lines_of_mem_getLast?_rowsFrom parent guides (index + 1) (u :: ts) r hr
end

mutual
private theorem rowsOf_isChain (path : List Nat) (guides : List Bool) (isLast : Bool) : (t : Item) →
    (rowsOf expanded path guides isLast t).IsChain Joins
  | ⟨label, kind, span, children⟩ => by
    rw [rowsOf]
    split
    · refine (rowsFrom_isChain path _ 0 children).cons fun r hr => ?_
      obtain ⟨isMore, h⟩ := lines_of_mem_head? hr
      exact .child isMore h
    · exact List.isChain_singleton _

private theorem rowsFrom_isChain (parent : List Nat) (guides : List Bool) (index : Nat) :
    (ts : List Item) →
    (rowsFrom expanded parent guides index ts).IsChain Joins
  | [] => by
    rw [rowsFrom]
    exact .nil
  | t :: ts => by
    rw [rowsFrom]
    refine (rowsOf_isChain _ guides _ t).append (rowsFrom_isChain parent guides (index + 1) ts) ?_
    intro above ha below hb
    cases ts with
    | nil =>
      rw [rowsFrom] at hb
      cases hb
    | cons u ts =>
      obtain ⟨n, ha⟩ := lines_of_mem_getLast?_rowsOf _ guides _ t above ha
      obtain ⟨isMore, hb⟩ := lines_of_mem_head? hb
      exact .sibling guides n isMore ha hb
end

end

namespace Joins
variable {above below : Row} {level : Nat}

/-- A line that goes on below a row comes to the row below it. -/
private theorem meets_below (h : Joins above below) (ha : above.lines[level]? = some true) :
    below.lines[level]? = some true ∨ below.lines.length = level + 1 := by
  cases h with
  | child isMore hb =>
    have hlt : level < above.lines.length := (List.getElem?_eq_some_iff.mp ha).1
    left
    rw [hb, List.getElem?_append_left hlt, ha]
  | sibling shared n isMore hlines hb =>
    rw [hlines] at ha
    rw [hb, List.length_append, List.length_singleton]
    rcases Nat.lt_trichotomy level shared.length with hlt | rfl | hgt
    · rw [List.getElem?_append_left hlt] at ha ⊢
      exact .inl ha
    · exact .inr rfl
    · -- Further down no item has another sibling.
      obtain ⟨k, rfl⟩ := Nat.exists_eq_add_of_lt hgt
      rw [Nat.add_assoc, List.getElem?_append_right (Nat.le_add_right ..), Nat.add_sub_cancel_left,
        List.getElem?_cons_succ, List.getElem?_replicate] at ha
      split at ha <;> cases ha

/-- A line that comes to a row goes on below the row above it, or begins there. -/
private theorem meets_above (h : Joins above below)
    (hb : below.lines[level]? = some true ∨ below.lines.length = level + 1) :
    above.lines[level]? = some true ∨ above.lines.length = level := by
  have hin : level < below.lines.length := by
    rcases hb with hb | hb
    · exact (List.getElem?_eq_some_iff.mp hb).1
    · omega
  cases h with
  | child isMore hlines =>
    rw [hlines, List.length_append, List.length_singleton] at hin hb
    rcases Nat.lt_or_eq_of_le (Nat.le_of_lt_succ hin) with hlt | heq
    · rw [List.getElem?_append_left hlt] at hb
      exact .inl (hb.resolve_right (by omega))
    · exact .inr heq.symm
  | sibling shared n isMore ha hlines =>
    left
    rw [hlines, List.length_append, List.length_singleton] at hin hb
    rw [ha]
    rcases Nat.lt_or_eq_of_le (Nat.le_of_lt_succ hin) with hlt | rfl
    · rw [List.getElem?_append_left hlt] at hb ⊢
      exact hb.resolve_right (by omega)
    · rw [List.getElem?_append_right (Nat.le_refl _), Nat.sub_self]
      rfl

end Joins

/-! ### Rows as they are drawn -/

/-- In pieces of one length, every piece begins at a multiple of it. -/
private theorem getElem?_flatten_mul {α : Type} {n : Nat} (hn : 0 < n) {pieces : List (List α)}
    (h : ∀ p ∈ pieces, p.length = n) (i : Nat) :
    pieces.flatten[n * i]? = pieces[i]?.bind List.head? := by
  induction pieces generalizing i with
  | nil => rfl
  | cons p pieces ih =>
    obtain ⟨hp, hpieces⟩ := List.forall_mem_cons.mp h
    rw [List.flatten_cons]
    cases i with
    | zero =>
      rw [Nat.mul_zero, List.getElem?_append_left (by omega), ← List.head?_eq_getElem?]
      rfl
    | succ i =>
      rw [List.getElem?_append_right (by rw [hp, Nat.mul_succ]; omega), hp, Nat.mul_succ, Nat.add_sub_cancel,
        ih hpieces]
      rfl

namespace Row
variable {r : Row} {level : Nat}

/-- The four columns of every level below the roots. -/
def pieces (r : Row) : List (List Char) :=
  (r.guides.drop 1).map (fun isContinued => (bar isContinued).toList) ++ [(fork r.isLast).toList]

private theorem length_of_mem_pieces {p : List Char} (h : p ∈ r.pieces) : p.length = 4 := by
  simp only [pieces, List.mem_append, List.mem_map, List.mem_singleton] at h
  rcases h with ⟨b, -, rfl⟩ | rfl
  · cases b <;> rfl
  · cases r.isLast <;> rfl

private theorem toList_branch (h : r.depth ≠ 0) : r.branch.toList = r.pieces.flatten := by
  rw [branch, if_neg h, String.toList_append, String.toList_join, List.flatMap_map, pieces,
    List.flatten_append, List.flatten_singleton]
  rfl

theorem length_lines (h : r.guides.length = r.depth) : r.lines.length = r.depth + 1 := by
  rw [lines, List.length_append, List.length_singleton, h]

private theorem length_pieces (h : r.guides.length = r.depth) (hr : r.depth ≠ 0) :
    r.pieces.length = r.depth := by
  rw [pieces, List.length_append, List.length_map, List.length_drop, List.length_singleton]
  omega

theorem length_branch (h : r.guides.length = r.depth) : r.branch.length = 4 * r.depth := by
  by_cases hr : r.depth = 0
  · rw [branch, if_pos hr, hr]
    rfl
  · have hlengths : r.pieces.map List.length = List.replicate r.pieces.length 4 :=
      List.eq_replicate_iff.mpr ⟨List.length_map .., by
        simp only [List.mem_map]
        rintro _ ⟨p, hp, rfl⟩
        exact length_of_mem_pieces hp⟩
    rw [← String.length_toList, toList_branch hr, List.length_flatten, hlengths, List.sum_replicate_nat,
      length_pieces h hr, Nat.mul_comm]

/-- In this column a line goes on to the row below: there is a bar or a tee. -/
def LeadsDown (r : Row) (column : Nat) : Prop :=
  r.branch.toList[column]? = some '│' ∨ r.branch.toList[column]? = some '├'

/-- In this column a line comes from the row above: there is a bar, a tee or a corner. -/
def LeadsUp (r : Row) (column : Nat) : Prop :=
  r.LeadsDown column ∨ r.branch.toList[column]? = some '└'

/-- What is drawn at a level below the roots. -/
private theorem getElem?_branch (h : r.guides.length = r.depth) : r.branch.toList[4 * level]? =
    (r.lines[level + 1]?).map fun isMore =>
      if level + 1 < r.depth then (if isMore then '│' else ' ') else (if isMore then '├' else '└') := by
  cases hg : r.guides with
  | nil =>
    have hr : r.depth = 0 := by rw [← h, hg]; rfl
    rw [branch, if_pos hr, lines, hg]
    rfl
  | cons g guides =>
    have hr : r.depth = guides.length + 1 := by rw [← h, hg]; rfl
    rw [toList_branch (by omega), getElem?_flatten_mul (by omega) fun _ => length_of_mem_pieces, pieces, lines,
      hg, List.drop_one, List.tail_cons, List.cons_append, List.getElem?_cons_succ]
    rcases Nat.lt_trichotomy level guides.length with hlt | rfl | hgt
    · rw [List.getElem?_append_left (by simpa using hlt), List.getElem?_append_left hlt, List.getElem?_map,
        List.getElem?_eq_getElem hlt, hr]
      cases guides[level] <;> simp [hlt, bar]
    · rw [List.getElem?_append_right (by simp), List.getElem?_append_right (Nat.le_refl _), hr]
      cases r.isLast <;> simp [fork]
    · have hout : (guides ++ [!r.isLast]).length ≤ level := by simpa using Nat.succ_le_of_lt hgt
      rw [List.getElem?_eq_none (by simpa using hout), List.getElem?_eq_none hout]
      rfl

theorem leadsDown_iff (h : r.guides.length = r.depth) :
    r.LeadsDown (4 * level) ↔ r.lines[level + 1]? = some true := by
  rw [LeadsDown, getElem?_branch h]
  cases r.lines[level + 1]? with
  | none => simp
  | some isMore => cases isMore <;> by_cases hlt : level + 1 < r.depth <;> simp [hlt]

theorem leadsUp_iff (h : r.guides.length = r.depth) :
    r.LeadsUp (4 * level) ↔ r.lines[level + 1]? = some true ∨ r.lines.length = level + 1 + 1 := by
  rw [LeadsUp, leadsDown_iff h, getElem?_branch h]
  have hlength := length_lines h
  cases hl : r.lines[level + 1]? with
  | none =>
    have := List.getElem?_eq_none_iff.mp hl
    simp
    omega
  | some isMore =>
    have := (List.getElem?_eq_some_iff.mp hl).1
    cases isMore <;> by_cases hlt : level + 1 < r.depth <;> simp [hlt] <;> omega

end Row

example : (visibleRows [[0], [0, 0]] [
    ⟨"a", .expandable, ⟨0, 9⟩, [
      ⟨"b", .expandable, ⟨2, 5⟩, [⟨"c", .leaf, ⟨3, 5⟩, []⟩]⟩, ⟨"d", .leaf, ⟨6, 9⟩, []⟩]⟩]).map Row.branch =
    ["", "├── ", "│   └── ", "└── "] := by decide

section
variable {expanded : List (List Nat)} {roots : List Item} {r : Row}

/-- A row has one guide for every item above its own. -/
private theorem length_guides (h : r ∈ visibleRows expanded roots) : r.guides.length = r.depth := by
  obtain ⟨added, hg, hlength, -⟩ := Tracker.guides_of_reaches (mem_visibleRows.mp h)
  rw [hg, List.nil_append, Row.depth, ← hlength, Nat.add_sub_cancel]

private theorem joins_of_getElem? {k : Nat} {below : Row}
    (h : (visibleRows expanded roots)[k]? = some r)
    (hbelow : (visibleRows expanded roots)[k + 1]? = some below) : Joins r below := by
  obtain ⟨-, rfl⟩ := List.getElem?_eq_some_iff.mp h
  obtain ⟨hk, rfl⟩ := List.getElem?_eq_some_iff.mp hbelow
  exact (rowsFrom_isChain [] [] 0 roots).getElem k hk

/-- No line goes on from the last row. -/
private theorem lines_of_getElem?_succ_eq_none {k : Nat}
    (h : (visibleRows expanded roots)[k]? = some r)
    (hlast : (visibleRows expanded roots)[k + 1]? = none) (level : Nat) : r.lines[level]? ≠ some true := by
  have hk := (List.getElem?_eq_some_iff.mp h).1
  have hlength := List.getElem?_eq_none_iff.mp hlast
  have hr : (visibleRows expanded roots).getLast? = some r := by
    rw [List.getLast?_eq_getElem?, ← h]
    exact congrArg _ (by omega)
  obtain ⟨n, hn⟩ := lines_of_mem_getLast?_rowsFrom [] [] 0 roots r hr
  rw [hn, List.nil_append, List.getElem?_replicate]
  split <;> nofun

/-- The first row is that of a root. -/
private theorem length_lines_of_getElem?_zero (h : (visibleRows expanded roots)[0]? = some r) :
    r.lines.length = 1 := by
  rw [← List.head?_eq_getElem?] at h
  obtain ⟨isMore, hr⟩ := lines_of_mem_head? h
  rw [hr]
  rfl

end

end Outline

namespace Session
open Outline (Row)

/-- In the rows that a session lists, for any outline and any paths that are expanded, no line dangles. What is
drawn before a row takes four columns for every level below the roots. Where a line goes on from a row, the
next row exists and takes it up; where a line comes to a row, it goes on from the row before or begins below
the item of that. -/
theorem lines_meet (s : Session) :
    (∀ r ∈ s.rebuildRows.rows, r.branch.length = 4 * r.depth) ∧
    (∀ (k level : Nat) (r : Row), s.rebuildRows.rows[k]? = some r → r.LeadsDown (4 * level) →
      ∃ below, s.rebuildRows.rows[k + 1]? = some below ∧ below.LeadsUp (4 * level)) ∧
    ∀ (k level : Nat) (r : Row), s.rebuildRows.rows[k]? = some r → r.LeadsUp (4 * level) →
      ∃ (j : Nat) (above : Row), k = j + 1 ∧ s.rebuildRows.rows[j]? = some above ∧
        (above.LeadsDown (4 * level) ∨ above.depth = level) := by
  have hguides {k : Nat} {r : Row} (h : s.rebuildRows.rows[k]? = some r) : r.guides.length = r.depth :=
    Outline.length_guides (List.mem_of_getElem? h)
  refine ⟨fun r hr => Row.length_branch (Outline.length_guides hr), fun k level r hr hdown => ?_,
    fun k level r hr hup => ?_⟩
  · rw [Row.leadsDown_iff (hguides hr)] at hdown
    cases hbelow : s.rebuildRows.rows[k + 1]? with
    | none => exact absurd hdown (Outline.lines_of_getElem?_succ_eq_none hr hbelow (level + 1))
    | some below =>
      have hjoins := Outline.joins_of_getElem? hr hbelow
      exact ⟨below, rfl, (Row.leadsUp_iff (hguides hbelow)).mpr (hjoins.meets_below hdown)⟩
  · rw [Row.leadsUp_iff (hguides hr)] at hup
    cases k with
    | zero =>
      have hlength := Outline.length_lines_of_getElem?_zero hr
      rcases hup with hup | hup
      · have := (List.getElem?_eq_some_iff.mp hup).1
        omega
      · omega
    | succ j =>
      have hj := (List.getElem?_eq_some_iff.mp hr).1
      obtain ⟨above, habove⟩ : ∃ above, s.rebuildRows.rows[j]? = some above :=
        ⟨_, List.getElem?_eq_getElem (by omega)⟩
      have hjoins := Outline.joins_of_getElem? habove hr
      refine ⟨j, above, rfl, habove, ?_⟩
      rw [Row.leadsDown_iff (hguides habove)]
      refine (hjoins.meets_above hup).imp_right fun hlength => ?_
      rw [Row.length_lines (hguides habove)] at hlength
      omega

end Session

end YamlOutline
