import YamlOutline.Proofs.Outline.Flattening
import YamlOutline.Session.Basic

/-! The rows that a session lists: one for every item that can be seen, whatever paths are said to be expanded. -/

namespace YamlOutline.Session
open Outline (Row)
open Tracker (Followed Visible mem_paths_visibleRows visible_singleton)
variable {s : Session}

private theorem rebuildRows_rows_eq_nil_iff : s.rebuildRows.rows = [] ↔ s.tracker.roots = [] := by
  constructor
  · intro h
    by_contra hne
    -- The first root is visible without anything being expanded.
    have hroot : Visible s.expanded [] s.tracker.roots [0] :=
      visible_singleton.mpr ⟨_, List.getElem?_eq_getElem (List.length_pos_iff.mpr hne)⟩
    have hmem : [0] ∈ s.rebuildRows.rows.map Row.path := mem_paths_visibleRows.mpr hroot
    rw [h] at hmem
    cases hmem
  · intro h
    simp only [rebuildRows, h]
    rfl

/-- Listing the rows again, for any outline and any paths that are expanded, and changing nothing but the rows
and the selection. The rows stand in the order of their paths. A path has a row exactly if it leads to an item
and every item above that is expandable and expanded. The row has its item's label, span and expandability, and
shows its children if the item is expandable and expanded. It is marked as the last one unless a sibling follows,
and has one guide for every item above it, which says whether a sibling of that one follows. The selection is kept
if it still is a row, and is a row unless the outline is empty. -/
theorem rows_list_visible_items (s : Session) :
    s.rebuildRows = { s with rows := s.rebuildRows.rows, row := s.rebuildRows.row } ∧
    (s.rebuildRows.rows.map Row.path).Pairwise (· < ·) ∧
    (∀ path, path ∈ s.rebuildRows.rows.map Row.path ↔ (∃ item, s.tracker.node? path = some item) ∧
      ∀ above, above <+: path → above ≠ path → above ≠ [] → above ∈ s.expanded ∧
        ∃ item, s.tracker.node? above = some item ∧ item.isExpandable = true) ∧
    (∀ r ∈ s.rebuildRows.rows, ∃ item, s.tracker.node? r.path = some item ∧
      r.label = item.label ∧ r.span = item.span ∧ r.expandable = item.isExpandable ∧
      (r.expanded = true ↔ item.isExpandable = true ∧ r.path ∈ s.expanded) ∧
      (r.isLast = true ↔ ¬ Followed s.tracker.roots r.path) ∧
      r.guides.length = r.depth ∧ ∀ k b, r.guides[k]? = some b →
        (b = true ↔ Followed s.tracker.roots (r.path.take (k + 1)))) ∧
    (s.row < s.rebuildRows.rows.length → s.rebuildRows.row = s.row) ∧
    (s.tracker.roots ≠ [] → s.rebuildRows.row < s.rebuildRows.rows.length) ∧
    (s.tracker.roots = [] → s.rebuildRows.rows = [] ∧ s.rebuildRows.row = 0) := by
  have hrow : s.rebuildRows.row = min s.row (s.rebuildRows.rows.length - 1) := rfl
  refine ⟨rfl, ?_, ?_, ?_, ?_, ?_, ?_⟩
  · rw [List.pairwise_map]
    exact Outline.rowsFrom_sorted [] [] 0 s.tracker.roots
  · intro path
    exact mem_paths_visibleRows
  · intro r hr
    have hreach := Outline.mem_visibleRows.mp hr
    obtain ⟨item, hitem, he⟩ := Tracker.descend?_of_reaches hreach
    obtain ⟨guides, hg, hlength, hguides⟩ := Tracker.guides_of_reaches hreach
    rw [List.nil_append] at hg
    refine ⟨item, hitem, by rw [he]; rfl, by rw [he]; rfl, by rw [he]; rfl, ?_,
      Tracker.isLast_iff_of_reaches hreach, ?_, ?_⟩
    · rw [he]
      exact Outline.Item.row_expanded
    · rw [hg, Row.depth, ← hlength, Nat.add_sub_cancel]
    · rwa [hg]
  · intro hlt
    omega
  · intro hne
    have hpos := List.length_pos_iff.mpr (mt rebuildRows_rows_eq_nil_iff.mp hne)
    omega
  · intro hempty
    have hnil := rebuildRows_rows_eq_nil_iff.mpr hempty
    refine ⟨hnil, ?_⟩
    rw [hrow, hnil]
    exact Nat.min_zero _

end YamlOutline.Session
