import Mathlib.Data.List.Lex
import YamlOutline.Outline.Rows

/-! How the rows of an outline come about. A row is reached from the roots by child indices, through items
that show their children, and the rows stand in the order of these indices. The set of expanded paths is all
that decides which items show theirs: without such a row, the set might as well be empty. -/

namespace YamlOutline.Outline
variable {expanded : List (List Nat)} {parent path : List Nat} {guides : List Bool} {isLast : Bool}
  {ts : List Item} {t : Item} {r : Row} {i : Nat}

private theorem Item.sizeOf_children_lt (t : Item) : sizeOf t.children < sizeOf t := by
  obtain ⟨label, kind, span, children⟩ := t
  simp only [Item.mk.sizeOf_spec]
  omega

/-- The row that shows an item. -/
def Item.row (expanded : List (List Nat)) (path : List Nat) (guides : List Bool) (isLast : Bool)
    (t : Item) : Row :=
  ⟨path, t.label, t.isExpandable, t.isExpandable && expanded.contains path, isLast, guides, t.span⟩

theorem Item.row_expanded : (t.row expanded path guides isLast).expanded = true ↔
    t.isExpandable = true ∧ path ∈ expanded := by
  simp [Item.row]

/-- Child indices lead from the items below `parent` to an item and its row. Every item passed on the way
shows its children, and adds a guide for the siblings behind it. -/
inductive Reaches (expanded : List (List Nat)) :
    List Nat → List Bool → List Item → List Nat → Row → Prop
  | here {parent : List Nat} {guides : List Bool} {ts : List Item} {i : Nat} {t : Item}
      (hi : ts[i]? = some t) : Reaches expanded parent guides ts [i]
        (t.row expanded (parent ++ [i]) guides (i + 1 = ts.length))
  | inside {parent : List Nat} {guides : List Bool} {ts : List Item} {i : Nat} {t : Item}
      {path : List Nat} {r : Row} (hi : ts[i]? = some t) (ht : t.isExpandable = true)
      (hp : parent ++ [i] ∈ expanded)
      (hr : Reaches expanded (parent ++ [i]) (guides ++ [!decide (i + 1 = ts.length)]) t.children path r) :
      Reaches expanded parent guides ts (i :: path) r

/-- An item has its own row and, if that shows its children, theirs. -/
private theorem mem_rowsOf : r ∈ rowsOf expanded path guides isLast t ↔
    r = t.row expanded path guides isLast ∨ (t.isExpandable = true ∧ path ∈ expanded) ∧
      r ∈ rowsFrom expanded path (guides ++ [!isLast]) 0 t.children := by
  have hx : (t.isExpandable && expanded.contains path) = true ↔
      t.isExpandable = true ∧ path ∈ expanded := by simp
  obtain ⟨label, kind, span, children⟩ := t
  rw [← hx, rowsOf]
  simp only [Item.isExpandable, Item.row]
  split
  · rename_i h
    rw [List.mem_cons, and_iff_right h]
  · rename_i h
    rw [List.mem_singleton, or_iff_left fun hc => h hc.1]

/-- The rows of items that follow each other are those of each, and the last item is told that it is. -/
private theorem mem_rowsFrom {index : Nat} : r ∈ rowsFrom expanded parent guides index ts ↔
    ∃ i t, ts[i]? = some t ∧
      r ∈ rowsOf expanded (parent ++ [index + i]) guides (i + 1 = ts.length) t := by
  induction ts generalizing index with
  | nil => simp [rowsFrom]
  | cons t ts ih =>
    have hlast : ts.isEmpty = decide (1 = (t :: ts).length) := by cases ts <;> simp
    rw [rowsFrom, List.mem_append, ih, hlast]
    constructor
    · rintro (ht | ⟨i, t', hi, hr⟩)
      · exact ⟨0, t, rfl, by simpa using ht⟩
      · exact ⟨i + 1, t', hi, by simpa [Nat.add_assoc, Nat.add_comm 1 i] using hr⟩
    · rintro ⟨i, t', hi, hr⟩
      cases i with
      | zero =>
        obtain rfl := Option.some.inj hi
        exact .inl (by simpa using hr)
      | succ i => exact .inr ⟨i, t', hi, by simpa [Nat.add_assoc, Nat.add_comm 1 i] using hr⟩

theorem Reaches.mem (h : Reaches expanded parent guides ts path r) :
    r ∈ rowsFrom expanded parent guides 0 ts := by
  induction h with
  | here hi => exact mem_rowsFrom.mpr ⟨_, _, hi, mem_rowsOf.mpr (.inl (by rw [Nat.zero_add]))⟩
  | inside hi ht hp _ ih =>
    refine mem_rowsFrom.mpr ⟨_, _, hi, mem_rowsOf.mpr (.inr ?_)⟩
    rw [Nat.zero_add]
    exact ⟨⟨ht, hp⟩, ih⟩

/-- By recursion on the items, which become the children of one of them. -/
private theorem exists_reaches {ts : List Item} {parent : List Nat} {guides : List Bool}
    (h : r ∈ rowsFrom expanded parent guides 0 ts) :
    ∃ path, Reaches expanded parent guides ts path r := by
  obtain ⟨i, t, hi, hr⟩ := mem_rowsFrom.mp h
  rw [Nat.zero_add] at hr
  rcases mem_rowsOf.mp hr with rfl | ⟨⟨ht, hp⟩, hc⟩
  · exact ⟨[i], .here hi⟩
  · have hlt : sizeOf t.children < sizeOf ts :=
      Nat.lt_trans t.sizeOf_children_lt (List.sizeOf_lt_of_mem (List.mem_of_getElem? hi))
    obtain ⟨path, hpath⟩ := exists_reaches hc
    exact ⟨i :: path, .inside hi ht hp hpath⟩
termination_by sizeOf ts

theorem Reaches.ne_nil (h : Reaches expanded parent guides ts path r) : path ≠ [] := by
  cases h <;> exact List.cons_ne_nil _ _

theorem Reaches.path_eq (h : Reaches expanded parent guides ts path r) : r.path = parent ++ path := by
  induction h with
  | here => rfl
  | inside _ _ _ _ ih => rw [ih, List.append_assoc, List.singleton_append]

/-- The rows that are visible are those that their own path reaches from the roots. -/
theorem mem_visibleRows {roots : List Item} :
    r ∈ visibleRows expanded roots ↔ Reaches expanded [] [] roots r.path r := by
  constructor
  · intro h
    obtain ⟨path, hr⟩ := exists_reaches h
    have hp : r.path = path := hr.path_eq
    exact hp ▸ hr
  · exact Reaches.mem

/-! ### The order of the rows -/

theorem path_of_mem_rowsOf (h : r ∈ rowsOf expanded path guides isLast t) :
    ∃ rest, r.path = path ++ rest := by
  rcases mem_rowsOf.mp h with rfl | ⟨-, hr⟩
  · exact ⟨[], (List.append_nil path).symm⟩
  · obtain ⟨rest, hrest⟩ := exists_reaches hr
    exact ⟨rest, hrest.path_eq⟩

theorem path_of_mem_rowsFrom {index : Nat} (h : r ∈ rowsFrom expanded parent guides index ts) :
    ∃ i rest, index ≤ i ∧ r.path = parent ++ i :: rest := by
  obtain ⟨i, t, -, hr⟩ := mem_rowsFrom.mp h
  obtain ⟨rest, hrest⟩ := path_of_mem_rowsOf hr
  exact ⟨index + i, rest, Nat.le_add_right .., by rw [hrest, List.append_assoc, List.singleton_append]⟩

mutual
theorem rowsOf_sorted (path : List Nat) (guides : List Bool) (isLast : Bool) : (t : Item) →
    (rowsOf expanded path guides isLast t).Pairwise fun r r' => r.path < r'.path
  | ⟨label, kind, span, children⟩ => by
    rw [rowsOf]
    split
    · refine List.pairwise_cons.mpr ⟨fun r hr => ?_, rowsFrom_sorted path _ 0 children⟩
      obtain ⟨i, rest, -, hp⟩ := path_of_mem_rowsFrom hr
      have hlt : path ++ [] < path ++ i :: rest := List.Lex.append_left _ .nil path
      rwa [List.append_nil, ← hp] at hlt
    · exact List.pairwise_singleton ..

theorem rowsFrom_sorted (parent : List Nat) (guides : List Bool) (index : Nat) : (ts : List Item) →
    (rowsFrom expanded parent guides index ts).Pairwise fun r r' => r.path < r'.path
  | [] => by
    rw [rowsFrom]
    exact .nil
  | t :: ts => by
    rw [rowsFrom]
    refine List.pairwise_append.mpr
      ⟨rowsOf_sorted _ _ _ t, rowsFrom_sorted parent guides (index + 1) ts, fun r hr r' hr' => ?_⟩
    obtain ⟨rest, hp⟩ := path_of_mem_rowsOf hr
    obtain ⟨i, rest', hi, hp'⟩ := path_of_mem_rowsFrom hr'
    rw [hp, hp', List.append_assoc, List.singleton_append]
    exact List.Lex.append_left _ (.rel (Nat.lt_of_succ_le hi)) parent
end

/-! ### Rows that show their children -/

private theorem Reaches.path_mem (h : Reaches expanded parent guides ts path r)
    (hr : r.expanded = true) :
    r.path ∈ expanded := by
  induction h with
  | here => exact (Item.row_expanded.mp hr).2
  | inside _ _ _ _ ih => exact ih hr

/-- A row shows its children only if its path is expanded. -/
theorem path_mem_of_expanded {roots : List Item} (h : r ∈ visibleRows expanded roots)
    (hr : r.expanded = true) : r.path ∈ expanded :=
  (mem_visibleRows.mp h).path_mem hr

private theorem rowsOf_of_collapsed (path : List Nat) (guides : List Bool) (isLast : Bool)
    (t : Item)
    (h : ∀ r ∈ rowsOf expanded path guides isLast t, r.expanded = false) :
    rowsOf expanded path guides isLast t = rowsOf [] path guides isLast t := by
  obtain ⟨label, kind, span, children⟩ := t
  by_cases hx : (kind == .expandable && expanded.contains path) = true
  · rw [rowsOf, if_pos hx] at h
    have hf : (kind == .expandable && expanded.contains path) = false := h _ (List.mem_cons_self ..)
    rw [hf] at hx
    cases hx
  · have he : (kind == .expandable && expanded.contains path) = false := by simpa using hx
    simp only [rowsOf, he, List.contains_nil, Bool.and_false, Bool.false_eq_true, if_false]

private theorem rowsFrom_of_collapsed (parent : List Nat) (guides : List Bool) (index : Nat)
    (ts : List Item) (h : ∀ r ∈ rowsFrom expanded parent guides index ts, r.expanded = false) :
    rowsFrom expanded parent guides index ts = rowsFrom [] parent guides index ts := by
  induction ts generalizing index with
  | nil => rfl
  | cons t ts ih =>
    simp only [rowsFrom, List.mem_append] at h ⊢
    rw [rowsOf_of_collapsed _ guides _ t fun r hr => h r (.inl hr),
      ih (index + 1) fun r hr => h r (.inr hr)]

/-- Collapsing everything changes the rows exactly if one of them shows its children. -/
theorem visibleRows_eq_nil_iff {roots : List Item} :
    visibleRows expanded roots = visibleRows [] roots ↔
      ∀ r ∈ visibleRows expanded roots, r.expanded = false := by
  constructor
  · intro h r hr
    rw [h] at hr
    refine Bool.eq_false_iff.mpr fun hx => ?_
    exact absurd (path_mem_of_expanded hr hx) List.not_mem_nil
  · exact rowsFrom_of_collapsed [] [] 0 roots

end YamlOutline.Outline
