import Mathlib.Logic.Function.Iterate
import YamlOutline.Proofs.Outline.Unfolding
import YamlOutline.Proofs.Session.Freshness

/-! Expanding and collapsing with the keys. Both list all rows again, but only those below the selected row
come or go, so that each key undoes the other. Collapsing again and again walks up: a row that shows its
children hides them, and any other row gives way to its parent, which shows its children and is the next to
hide them. -/

namespace YamlOutline.Session
open Outline (Row Unfolds visibleRows)
variable {s s' : Session} {r : Row}

private theorem Fresh.getElem?_visibleRows (h : s.Fresh) (hr : s.selected? = some r) :
    (visibleRows s.expanded s.tracker.roots)[s.row]? = some r :=
  h ▸ hr

private theorem Fresh.mem_visibleRows (h : s.Fresh) (hr : s.selected? = some r) :
    r ∈ visibleRows s.expanded s.tracker.roots :=
  List.mem_of_getElem? (h.getElem?_visibleRows hr)

/-- The rows depend on no more than the outline and the paths that are in the set. -/
private theorem Fresh.rows_eq (h : s.Fresh) (h' : s'.Fresh) (ht : s'.tracker = s.tracker)
    (he : ∀ path, path ∈ s'.expanded ↔ path ∈ s.expanded) : s'.rows = s.rows := by
  rw [h, h', ht, Outline.visibleRows_congr he]

/-- The selection stays where it is when rows behind it come or go. -/
private theorem rebuildRows_eq (hr : s.rebuildRows.rows[s.row]? = some r) :
    s.rebuildRows = { s with rows := s.rebuildRows.rows } := by
  have hlt := (List.getElem?_eq_some_iff.mp hr).1
  have hrow : s.rebuildRows.row = s.row := Nat.min_eq_left (Nat.le_sub_one_of_lt hlt)
  rw [← hrow]
  rfl

/-! ### One key -/

theorem mem_cons_filter_ne {q p : List Nat} :
    q ∈ p :: s.expanded.filter (· != p) ↔ q ∈ s.expanded ∨ q = p := by
  by_cases hq : q = p <;> simp [hq]

private theorem mem_filter_ne {q p : List Nat} :
    q ∈ s.expanded.filter (· != p) ↔ q ∈ s.expanded ∧ q ≠ p := by
  simp

theorem expandOrDescend_of_collapsed (hr : s.selected? = some r) (hx : r.expandable = true)
    (hc : r.expanded = false) : s.expandOrDescend =
      rebuildRows { s with expanded := r.path :: s.expanded.filter (· != r.path) } := by
  simp only [expandOrDescend, hr, hx, hc, Bool.not_true, Bool.false_eq_true, if_false]

/-- Expanding a collapsed row shows what is below it. -/
theorem Fresh.expand (h : s.Fresh) (hr : s.selected? = some r) (hx : r.expandable = true)
    (hc : r.expanded = false) : ∃ rows, Unfolds s.rows s.row r rows ∧
      s.expandOrDescend = { s with rows, expanded := r.path :: s.expanded.filter (· != r.path) } ∧
      s.expandOrDescend.selected? = some { r with expanded := true } := by
  let s' : Session := { s with expanded := r.path :: s.expanded.filter (· != r.path) }
  have hout := Outline.path_not_mem_of_not_expanded (h.mem_visibleRows hr) hx hc
  have hself (q : List Nat) : q ∈ s.expanded ↔ q ∈ s.expanded ∧ q ≠ r.path :=
    ⟨fun hq => ⟨hq, fun he => hout (he ▸ hq)⟩, And.left⟩
  have hu : Unfolds s.rows s.row r s'.rebuildRows.rows :=
    h ▸ Outline.visibleRows_unfolds (h.getElem?_visibleRows hr) hx hself fun _ => mem_cons_filter_ne
  refine ⟨s'.rebuildRows.rows, hu, ?_⟩
  have he : s.expandOrDescend = s'.rebuildRows := expandOrDescend_of_collapsed hr hx hc
  rw [he, rebuildRows_eq hu.getElem?_opened]
  exact ⟨rfl, hu.getElem?_opened⟩

/-- Collapsing an expanded row hides what is below it. -/
private theorem Fresh.collapse (h : s.Fresh) (hr : s.selected? = some r) (hx : r.expanded = true) :
    ∃ rows, Unfolds rows s.row r s.rows ∧
      s.collapseOrAscend = { s with rows, expanded := s.expanded.filter (· != r.path) } ∧
      s.collapseOrAscend.selected? = some { r with expanded := false } := by
  let s' : Session := { s with expanded := s.expanded.filter (· != r.path) }
  have hmem := h.mem_visibleRows hr
  have hin : r.path ∈ s.expanded := Outline.path_mem_of_expanded hmem hx
  have hself (q : List Nat) : q ∈ s.expanded ↔ q ∈ s.expanded ∨ q = r.path :=
    ⟨.inl, fun hq => hq.elim id fun he => he ▸ hin⟩
  have hu : Unfolds s'.rebuildRows.rows s.row r s.rows :=
    h ▸ Outline.visibleRows_unfolds (h.getElem?_visibleRows hr) (Outline.expandable_of_expanded hmem hx)
      (fun _ => mem_filter_ne) hself
  refine ⟨s'.rebuildRows.rows, hu, ?_⟩
  have he : s.collapseOrAscend = s'.rebuildRows := by
    simp only [collapseOrAscend, hr, hx, if_true, s']
  rw [he, rebuildRows_eq hu.getElem?_shut]
  exact ⟨rfl, hu.getElem?_shut⟩

private theorem Fresh.collapse_expand (h : s.Fresh) (hr : s.selected? = some r)
    (hx : r.expandable = true)
    (hc : r.expanded = false) : s.expandOrDescend.collapseOrAscend = s := by
  obtain ⟨rows, -, he, hsel⟩ := h.expand hr hx hc
  have hfresh := expandOrDescend_fresh h
  obtain ⟨rows', -, he', -⟩ := hfresh.collapse hsel rfl
  have hfresh' := collapseOrAscend_fresh hfresh
  have hout := Outline.path_not_mem_of_not_expanded (h.mem_visibleRows hr) hx hc
  have hback : (r.path :: s.expanded.filter (· != r.path)).filter (· != r.path) = s.expanded := by
    rw [List.filter_cons_of_neg (by simp), List.filter_filter, List.filter_eq_self]
    intro path hp
    simpa using fun hpath : path = r.path => hout (hpath ▸ hp)
  rw [he] at he' hfresh' ⊢
  rw [hback] at he'
  rw [he'] at hfresh' ⊢
  have hrows : rows' = s.rows := h.rows_eq hfresh' rfl fun _ => Iff.rfl
  rw [hrows]

/-- The set that the path was taken out of and put back into may list its paths in another order. -/
private theorem Fresh.expand_collapse (h : s.Fresh) (hr : s.selected? = some r)
    (hx : r.expanded = true) :
    ∃ expanded, (∀ path, path ∈ expanded ↔ path ∈ s.expanded) ∧
      s.collapseOrAscend.expandOrDescend = { s with expanded } := by
  obtain ⟨rows, -, he, hsel⟩ := h.collapse hr hx
  have hmem := h.mem_visibleRows hr
  have hin := Outline.path_mem_of_expanded hmem hx
  have hexpandable : r.expandable = true := Outline.expandable_of_expanded hmem hx
  have hfresh := collapseOrAscend_fresh h
  obtain ⟨rows', -, he', -⟩ := hfresh.expand hsel hexpandable rfl
  have hfresh' := expandOrDescend_fresh hfresh
  rw [he] at he' hfresh' ⊢
  rw [he'] at hfresh' ⊢
  have hsame (path : List Nat) : path ∈ r.path :: (s.expanded.filter (· != r.path)).filter (· != r.path) ↔
      path ∈ s.expanded := by
    by_cases hp : path = r.path <;> simp [hp, hin]
  have hrows : rows' = s.rows := h.rows_eq hfresh' rfl hsame
  refine ⟨_, hsame, ?_⟩
  rw [hrows]

/-- Leaving a collapsed row leads to its parent, which shows its children. -/
private theorem Fresh.ascend (h : s.Fresh) (hr : s.selected? = some r) (hc : r.expanded = false)
    (hp : r.path.dropLast ≠ []) : ∃ row parent, s.collapseOrAscend = { s with row } ∧
      s.rows[row]? = some parent ∧ parent.path = r.path.dropLast ∧ parent.expanded = true := by
  have hmem := h.mem_visibleRows hr
  have hbegins : r.path.dropLast <+: r.path := List.dropLast_prefix r.path
  have hshorter : r.path.dropLast ≠ r.path := fun he => by
    have hlength := congrArg List.length he
    have hpos := List.length_pos_iff.mpr hp
    rw [List.length_dropLast] at hlength hpos
    omega
  have hvisible := (Tracker.mem_paths_visibleRows.mp (List.mem_map_of_mem hmem)).beginning hbegins hp
  obtain ⟨b, hb, hpath⟩ := List.mem_map.mp (Tracker.mem_paths_visibleRows.mpr hvisible)
  cases hf : s.rows.findIdx? (·.path == r.path.dropLast) with
  | none =>
    have hno := List.findIdx?_eq_none_iff.mp hf b (h ▸ hb)
    simp [hpath] at hno
  | some row =>
    obtain ⟨hlt, hfound, -⟩ := List.findIdx?_eq_some_iff_getElem.mp hf
    have hparent : s.rows[row].path = r.path.dropLast := by simpa using hfound
    refine ⟨row, s.rows[row], ?_, List.getElem?_eq_getElem hlt, hparent, ?_⟩
    · simp only [collapseOrAscend, hr, hc, Bool.false_eq_true, if_false, hf]
    · exact Outline.expanded_of_above (h ▸ List.getElem_mem hlt) hmem
        ⟨hparent ▸ hbegins, hparent ▸ hshorter⟩

/-- A collapsed root stays selected. -/
private theorem Fresh.stay (h : s.Fresh) (hr : s.selected? = some r) (hc : r.expanded = false)
    (hp : r.path.dropLast = []) : s.collapseOrAscend = s := by
  have hf : s.rows.findIdx? (·.path == r.path.dropLast) = none := by
    refine List.findIdx?_eq_none_iff.mpr fun b hb => ?_
    rw [h] at hb
    simpa [hp] using (Tracker.descend?_of_mem_visibleRows hb).1
  simp only [collapseOrAscend, hr, hc, Bool.false_eq_true, if_false, hf]

/-! ### The same key again and again -/

/-- The step of the walk up: the children are hidden and the parent is selected with two keys. -/
private theorem Fresh.collapsed_parent (h : s.Fresh) (hr : s.selected? = some r)
    (hc : r.expanded = false)
    (hp : r.path.dropLast ≠ []) : ∃ parent, s.collapseOrAscend.collapseOrAscend.Fresh ∧
      s.collapseOrAscend.collapseOrAscend.selected? = some parent ∧ parent.expanded = false ∧
      parent.path = r.path.dropLast := by
  obtain ⟨row, parent, he, hparent, hpath, hx⟩ := h.ascend hr hc hp
  have hfresh := collapseOrAscend_fresh h
  rw [he] at hfresh ⊢
  obtain ⟨rows, -, -, hsel⟩ := hfresh.collapse hparent hx
  exact ⟨_, collapseOrAscend_fresh hfresh, hsel, rfl, hpath⟩

/-- By induction on the depth: after two keys for each level the root above the row is selected, collapsed. -/
private theorem Fresh.iterate_collapsed (h : s.Fresh) (hr : s.selected? = some r)
    (hc : r.expanded = false) :
    ∃ root, (collapseOrAscend^[2 * r.depth] s).Fresh ∧
      (collapseOrAscend^[2 * r.depth] s).selected? = some root ∧ root.expanded = false ∧
      root.path = r.path.take 1 := by
  generalize hd : r.depth = d
  have hlength : r.path.length = d + 1 := by
    have hmem := h.mem_visibleRows hr
    have hpos := List.length_pos_iff.mpr (Tracker.descend?_of_mem_visibleRows hmem).1
    rw [Row.depth] at hd
    omega
  clear hd
  induction d generalizing s r with
  | zero => exact ⟨r, h, hr, hc, by rw [List.take_of_length_le (by omega)]⟩
  | succ d ih =>
    have hp : r.path.dropLast ≠ [] := List.ne_nil_of_length_pos (by rw [List.length_dropLast]; omega)
    obtain ⟨parent, hfresh, hparent, hshut, hpath⟩ := h.collapsed_parent hr hc hp
    obtain ⟨root, hroot⟩ := ih hfresh hparent hshut (by rw [hpath, List.length_dropLast]; omega)
    have htake : parent.path.take 1 = r.path.take 1 := by
      rw [hpath, List.dropLast_eq_take, List.take_take, Nat.min_eq_left (by omega)]
    rw [htake] at hroot
    refine ⟨root, ?_⟩
    rw [Nat.mul_succ, Function.iterate_add_apply]
    exact hroot

/-- Once the root is reached, further keys change nothing. -/
private theorem Fresh.iterate_ascended (h : s.Fresh) (hr : s.selected? = some r) (n : Nat)
    (hn : 2 * r.depth + r.expanded.toNat ≤ n) :
    ∃ root, (collapseOrAscend^[n] s).selected? = some root ∧ root.path = r.path.take 1 ∧
      root.expanded = false ∧ collapseOrAscend^[n + 1] s = collapseOrAscend^[n] s := by
  obtain ⟨root, hfresh, hroot, hshut, hpath⟩ : ∃ root,
      (collapseOrAscend^[2 * r.depth + r.expanded.toNat] s).Fresh ∧
      (collapseOrAscend^[2 * r.depth + r.expanded.toNat] s).selected? = some root ∧
      root.expanded = false ∧ root.path = r.path.take 1 := by
    cases hx : r.expanded with
    | false => exact h.iterate_collapsed hr hx
    | true =>
      obtain ⟨rows, -, -, hsel⟩ := h.collapse hr hx
      exact (collapseOrAscend_fresh h).iterate_collapsed (r := { r with expanded := false }) hsel rfl
  have hstay : (collapseOrAscend^[2 * r.depth + r.expanded.toNat] s).collapseOrAscend =
      collapseOrAscend^[2 * r.depth + r.expanded.toNat] s := by
    refine hfresh.stay hroot hshut (List.length_eq_zero_iff.mp ?_)
    rw [hpath, List.length_dropLast, List.length_take]
    omega
  have hsame : collapseOrAscend^[n] s = collapseOrAscend^[2 * r.depth + r.expanded.toNat] s := by
    obtain ⟨k, rfl⟩ := Nat.exists_eq_add_of_le' hn
    rw [Function.iterate_add_apply, Function.iterate_fixed hstay]
  refine ⟨root, hsame ▸ hroot, hpath, hshut, ?_⟩
  rw [Function.iterate_succ_apply', hsame, hstay]

/-- In a session whose rows are those of its outline and its expansions, with the row `r` selected. Expanding a
collapsed row and collapsing an expanded one change the rows only by the block of those below it, and put its
path into the set or take it out; the selection is the same row, but for its mark, and the other key, pressed
next, undoes all of it. However often the key for collapsing is pressed, from the number of times on that takes
two for each level and one more for a row that shows its children, the root above the row is selected and
collapsed, and the key changes nothing any more. -/
theorem unfolding_local_and_undone (h : s.Fresh) (hr : s.selected? = some r) :
    (r.expandable = true → r.expanded = false → ∃ rows expanded, Unfolds s.rows s.row r rows ∧
      (∀ path, path ∈ expanded ↔ path ∈ s.expanded ∨ path = r.path) ∧
      s.expandOrDescend = { s with rows, expanded } ∧
      s.expandOrDescend.selected? = some { r with expanded := true } ∧
      s.expandOrDescend.collapseOrAscend = s) ∧
    (r.expanded = true → ∃ rows expanded, Unfolds rows s.row r s.rows ∧
      (∀ path, path ∈ expanded ↔ path ∈ s.expanded ∧ path ≠ r.path) ∧
      s.collapseOrAscend = { s with rows, expanded } ∧
      s.collapseOrAscend.selected? = some { r with expanded := false } ∧
      ∃ again, (∀ path, path ∈ again ↔ path ∈ s.expanded) ∧
        s.collapseOrAscend.expandOrDescend = { s with expanded := again }) ∧
    ∀ n, 2 * r.depth + r.expanded.toNat ≤ n →
      ∃ root, (collapseOrAscend^[n] s).selected? = some root ∧ root.path = r.path.take 1 ∧
        root.expanded = false ∧ collapseOrAscend^[n + 1] s = collapseOrAscend^[n] s := by
  refine ⟨fun hx hc => ?_, fun hx => ?_, h.iterate_ascended hr⟩
  · obtain ⟨rows, hu, he, hsel⟩ := h.expand hr hx hc
    exact ⟨rows, _, hu, fun _ => mem_cons_filter_ne, he, hsel, h.collapse_expand hr hx hc⟩
  · obtain ⟨rows, hu, he, hsel⟩ := h.collapse hr hx
    exact ⟨rows, _, hu, fun _ => mem_filter_ne, he, hsel, h.expand_collapse hr hx⟩

/-- A row was unfolded below one that was collapsed since; expanding that one shows both, and the key for
collapsing takes all of it back. -/
theorem unfolding_local_with_remembered_row :
    ∃ s r, (started (.ofFolder [] []) {} [⟨"a.yaml", "yaml", "a:\n  b:\n    c:\n      d: 1\ne:\n  f: 1\n"⟩]
        []).perform [.expandOrDescend, .moveDown, .expandOrDescend, .moveUp, .collapseOrAscend] = s ∧
      s.Fresh ∧ s.selected? = some r ∧ r.expandable = true ∧ r.expanded = false ∧ [0, 0] ∈ s.expanded ∧
      s.expandOrDescend.rows.map Row.path = [[0], [0, 0], [0, 0, 0], [1]] ∧
      s.expandOrDescend.collapseOrAscend = s := by
  have h : Fresh ((started (.ofFolder [] []) {}
      [⟨"a.yaml", "yaml", "a:\n  b:\n    c:\n      d: 1\ne:\n  f: 1\n"⟩] []).perform
        [.expandOrDescend, .moveDown, .expandOrDescend, .moveUp, .collapseOrAscend]) := by decide +kernel
  have hr : ((started (.ofFolder [] []) {}
      [⟨"a.yaml", "yaml", "a:\n  b:\n    c:\n      d: 1\ne:\n  f: 1\n"⟩] []).perform
        [.expandOrDescend, .moveDown, .expandOrDescend, .moveUp, .collapseOrAscend]).selected? =
      some ⟨[0], "a:", true, false, false, [], ⟨0, 25⟩⟩ := by decide +kernel
  obtain ⟨hexpand, -, -⟩ := unfolding_local_and_undone h hr
  obtain ⟨-, -, -, -, -, -, hback⟩ := hexpand rfl rfl
  exact ⟨_, _, rfl, h, hr, rfl, rfl, by decide +kernel, by decide +kernel, hback⟩

end YamlOutline.Session
