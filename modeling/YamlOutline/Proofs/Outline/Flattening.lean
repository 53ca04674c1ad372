import YamlOutline.Proofs.Outline.Paths

/-! The rows of an outline against the paths of its items. A path has a row if the items above show their
children, and the marks of the row follow from the siblings of the item and of those above it. -/

namespace YamlOutline.Tracker
open Outline (Item Row Reaches visibleRows)
variable {expanded : List (List Nat)} {parent path : List Nat} {guides : List Bool}
  {ts : List Item} {t : Item} {r : Row} {i : Nat}

/-! ### The items that show -/

/-- Below `parent` the path leads to an item, and every item that it passes shows its children. -/
def Visible (expanded : List (List Nat)) (parent : List Nat) (items : List Item) (path : List Nat) : Prop :=
  (∃ item, descend? items path = some item) ∧ ∀ above, above <+: path → above ≠ path → above ≠ [] →
    parent ++ above ∈ expanded ∧ ∃ item, descend? items above = some item ∧ item.isExpandable = true

theorem visible_singleton : Visible expanded parent ts [i] ↔ ∃ t, ts[i]? = some t := by
  apply and_iff_left
  intro above ha hne hnil
  rcases List.prefix_cons_iff.mp ha with rfl | ⟨rest, rfl, hrest⟩
  · exact absurd rfl hnil
  · exact absurd (congrArg _ (List.prefix_nil.mp hrest)) hne

/-- The path is visible if its first item shows its children and the rest is visible among these. -/
private theorem visible_inside (hp : path ≠ []) : Visible expanded parent ts (i :: path) ↔
    ∃ t, ts[i]? = some t ∧ t.isExpandable = true ∧ parent ++ [i] ∈ expanded ∧
      Visible expanded (parent ++ [i]) t.children path := by
  constructor
  · rintro ⟨⟨item, hitem⟩, habove⟩
    obtain ⟨hx, t, hi, ht⟩ := habove [i] (by simp) (by simpa using hp.symm) (List.cons_ne_nil _ _)
    rw [descend?_inside hi hp] at hitem
    refine ⟨t, hi, ht, hx, ⟨item, hitem⟩, ?_⟩
    intro above ha hne hnil
    have h := habove (i :: above) ((List.prefix_cons_inj i).mpr ha) (by simpa using hne)
      (List.cons_ne_nil _ _)
    rwa [descend?_inside hi hnil, List.append_cons] at h
  · rintro ⟨t, hi, ht, hx, ⟨item, hitem⟩, habove⟩
    refine ⟨⟨item, by rw [descend?_inside hi hp, hitem]⟩, ?_⟩
    intro above ha hne hnil
    rcases List.prefix_cons_iff.mp ha with rfl | ⟨rest, rfl, hrest⟩
    · exact absurd rfl hnil
    by_cases hempty : rest = []
    · subst hempty
      exact ⟨hx, t, hi, ht⟩
    · rw [descend?_inside hi hempty, List.append_cons]
      exact habove rest hrest (fun he => hne (congrArg _ he)) hempty

/-- Above what is visible everything is. -/
theorem Visible.beginning {above : List Nat} (h : Visible expanded parent ts path) (ha : above <+: path)
    (hn : above ≠ []) : Visible expanded parent ts above := by
  by_cases he : above = path
  · exact he ▸ h
  · obtain ⟨-, item, hitem, -⟩ := h.2 above ha he hn
    refine ⟨⟨item, hitem⟩, fun first hf hne hnil => h.2 first (hf.trans ha) (fun hp => ?_) hnil⟩
    subst hp
    exact he (ha.eq_of_length_le hf.length_le)

/-- A visible item that shows its children makes these visible. -/
theorem Visible.child {above : List Nat} {item : Item} (h : Visible expanded parent ts above)
    (ht : descend? ts above = some t) (hx : t.isExpandable = true) (hp : parent ++ above ∈ expanded)
    (hi : descend? ts (above ++ [i]) = some item) : Visible expanded parent ts (above ++ [i]) := by
  refine ⟨⟨item, hi⟩, fun first hf hne hnil => ?_⟩
  rcases List.prefix_concat_iff.mp hf with rfl | hf
  · exact absurd rfl hne
  · by_cases he : first = above
    · subst he
      exact ⟨hp, t, ht, hx⟩
    · exact h.2 first hf he hnil

/-- With more paths expanded no less is visible. -/
theorem Visible.mono {expanded' : List (List Nat)} (h : Visible expanded parent ts path)
    (hsub : expanded ⊆ expanded') : Visible expanded' parent ts path :=
  ⟨h.1, fun above ha hne hnil => (h.2 above ha hne hnil).imp_left fun hp => hsub hp⟩

private theorem exists_reaches_iff : (∃ r, Reaches expanded parent guides ts path r) ↔
    Visible expanded parent ts path := by
  induction path generalizing parent guides ts with
  | nil =>
    -- The empty path reaches no row and leads to no item.
    constructor
    · rintro ⟨_, h⟩
      exact absurd rfl h.ne_nil
    · rintro ⟨⟨_, h⟩, _⟩
      cases h
  | cons i path ih =>
    cases path with
    | nil =>
      rw [visible_singleton]
      constructor
      · rintro ⟨r, h⟩
        cases h with
        | here hi => exact ⟨_, hi⟩
        | inside _ _ _ hr => exact absurd rfl hr.ne_nil
      · rintro ⟨t, hi⟩
        exact ⟨_, .here hi⟩
    | cons j path =>
      rw [visible_inside (List.cons_ne_nil j path)]
      constructor
      · rintro ⟨r, h⟩
        cases h with
        | inside hi ht hx hr => exact ⟨_, hi, ht, hx, ih.mp ⟨r, hr⟩⟩
      · rintro ⟨t, hi, ht, hx, hv⟩
        obtain ⟨r, hr⟩ := ih.mpr hv
        exact ⟨r, .inside hi ht hx hr⟩

/-- A path has a row exactly if it is visible. -/
theorem mem_paths_visibleRows :
    path ∈ (visibleRows expanded ts).map Row.path ↔ Visible expanded [] ts path := by
  have hv : (∃ r, Reaches expanded [] [] ts path r) ↔ Visible expanded [] ts path := exists_reaches_iff
  rw [List.mem_map, ← hv]
  constructor
  · rintro ⟨r, hr, rfl⟩
    exact ⟨r, Outline.mem_visibleRows.mp hr⟩
  · rintro ⟨r, hr⟩
    exact ⟨r, hr.mem, hr.path_eq⟩

/-- An item below a collapsed one does not show, and neither do the children of a leaf. -/
example : (visibleRows [[0, 0], [1], [7]] [
    ⟨"a", .expandable, ⟨0, 9⟩, [⟨"b", .expandable, ⟨2, 9⟩, [⟨"c", .leaf, ⟨4, 9⟩, []⟩]⟩]⟩,
    ⟨"d", .leaf, ⟨9, 12⟩, [⟨"e", .leaf, ⟨10, 12⟩, []⟩]⟩]).map Row.path = [[0], [1]] := by decide

/-! ### Siblings -/

/-- A sibling stands behind the item: with its last index raised by one, the path still leads to an item. -/
def Followed (items : List Item) (path : List Nat) : Prop :=
  ∃ parent i item, path = parent ++ [i] ∧ descend? items (parent ++ [i + 1]) = some item

private theorem followed_singleton (hi : ts[i]? = some t) :
    Followed ts [i] ↔ i + 1 ≠ ts.length := by
  have hlt := (List.getElem?_eq_some_iff.mp hi).1
  constructor
  · rintro ⟨parent, j, item, hp, hitem⟩
    obtain ⟨rfl, rfl⟩ : parent = [] ∧ j = i := by simpa [List.singleton_eq_append_iff] using hp
    exact Nat.ne_of_lt (List.getElem?_eq_some_iff.mp hitem).1
  · intro hne
    exact ⟨[], i, _, rfl, List.getElem?_eq_getElem (Nat.lt_of_le_of_ne hlt hne)⟩

private theorem followed_inside (hi : ts[i]? = some t) (hp : path ≠ []) :
    Followed ts (i :: path) ↔ Followed t.children path := by
  constructor
  · rintro ⟨parent, j, item, he, hitem⟩
    cases parent with
    | nil => exact absurd (List.cons.inj he).2 hp
    | cons k parent =>
      obtain ⟨rfl, rfl⟩ := List.cons.inj he
      exact ⟨parent, j, item, rfl, by rwa [List.cons_append, descend?_inside hi (by simp)] at hitem⟩
  · rintro ⟨parent, j, item, rfl, hitem⟩
    exact ⟨i :: parent, j, item, rfl, by rwa [List.cons_append, descend?_inside hi (by simp)]⟩

theorem isLast_iff_of_reaches (h : Reaches expanded parent guides ts path r) :
    r.isLast = true ↔ ¬ Followed ts path := by
  induction h with
  | here hi => rw [followed_singleton hi, not_not, Item.row, decide_eq_true_eq]
  | inside hi _ _ hr ih => rw [followed_inside hi hr.ne_nil, ih]

/-- On the way to a row there is one guide for every item above it. -/
theorem guides_of_reaches (h : Reaches expanded parent guides ts path r) :
    ∃ added, r.guides = guides ++ added ∧ added.length + 1 = path.length ∧
      ∀ k b, added[k]? = some b → (b = true ↔ Followed ts (path.take (k + 1))) := by
  induction h with
  | here => exact ⟨[], (List.append_nil _).symm, rfl, fun k b hk => by cases hk⟩
  | @inside _ _ ts i _ path _ hi _ _ hr ih =>
    obtain ⟨added, hg, hlength, hadded⟩ := ih
    refine ⟨(!decide (i + 1 = ts.length)) :: added, ?_, ?_, ?_⟩
    · rw [hg, List.append_assoc, List.singleton_append]
    · rw [List.length_cons, hlength, List.length_cons]
    intro k b hk
    cases k with
    | zero =>
      obtain rfl := Option.some.inj hk
      rw [List.take_succ_cons, List.take_zero, followed_singleton hi, Bool.not_eq_true',
        decide_eq_false_iff_not]
    | succ k =>
      have hne : path.take (k + 1) ≠ [] := by simpa using hr.ne_nil
      rw [List.take_succ_cons, followed_inside hi hne]
      exact hadded k b hk

end YamlOutline.Tracker
