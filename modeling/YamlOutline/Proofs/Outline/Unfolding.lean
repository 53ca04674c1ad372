import YamlOutline.Proofs.Outline.Flattening

/-! Showing and hiding what is below one row. The rows are listed from scratch for every set of expanded
paths, but those of an item depend only on what the set says of the paths that begin with the item's own.
So around an item the list is the same whatever the set says of the item and of those below it. -/

namespace YamlOutline.Outline
variable {expanded expanded' : List (List Nat)} {parent path : List Nat} {guides : List Bool}
  {isLast : Bool} {ts roots : List Item} {t : Item} {r b : Row} {i : Nat}

theorem rowsOf_of_expanded (h : (t.row expanded path guides isLast).expanded = true) :
    rowsOf expanded path guides isLast t = t.row expanded path guides isLast ::
      rowsFrom expanded path (guides ++ [!isLast]) 0 t.children := by
  obtain ⟨label, kind, span, children⟩ := t
  rw [rowsOf]
  exact if_pos h

theorem rowsOf_of_not_expanded (h : (t.row expanded path guides isLast).expanded = false) :
    rowsOf expanded path guides isLast t = [t.row expanded path guides isLast] := by
  obtain ⟨label, kind, span, children⟩ := t
  rw [rowsOf]
  exact if_neg (Bool.eq_false_iff.mp h)

mutual
private theorem rowsOf_congr (path : List Nat) (guides : List Bool) (isLast : Bool) : (t : Item) →
    (∀ q, path <+: q → (q ∈ expanded' ↔ q ∈ expanded)) →
      rowsOf expanded' path guides isLast t = rowsOf expanded path guides isLast t
  | ⟨label, kind, span, children⟩, h => by
    have hself : expanded'.contains path = expanded.contains path :=
      Bool.eq_iff_iff.mpr (by simpa using h path (List.prefix_refl path))
    rw [rowsOf, rowsOf, hself, rowsFrom_congr path (guides ++ [!isLast]) 0 children fun q _ _ hq =>
      h q ((List.prefix_append path _).trans hq)]

private theorem rowsFrom_congr (parent : List Nat) (guides : List Bool) (index : Nat) :
    (ts : List Item) →
    (∀ q i, index ≤ i → parent ++ [i] <+: q → (q ∈ expanded' ↔ q ∈ expanded)) →
      rowsFrom expanded' parent guides index ts = rowsFrom expanded parent guides index ts
  | [], _ => by rw [rowsFrom, rowsFrom]
  | t :: ts, h => by
    rw [rowsFrom, rowsFrom,
      rowsOf_congr (parent ++ [index]) guides ts.isEmpty t fun q => h q index (Nat.le_refl index),
      rowsFrom_congr parent guides (index + 1) ts fun q i hi => h q i (Nat.le_of_succ_le hi)]
end

/-- Items at different places among their siblings have nothing below both. -/
private theorem not_prefix_of_ne {j : Nat} (h : i ≠ j) (hj : parent ++ [j] <+: path) :
    ¬ parent ++ [i] <+: path := by
  obtain ⟨rest, rfl⟩ := hj
  rw [List.append_assoc, List.prefix_append_right_inj, List.singleton_append, List.cons_prefix_cons]
  exact fun hi => h hi.1

/-- Among siblings, the rows before and behind those of one item do not depend on what the set says of that
item and of those below it. -/
private theorem rowsFrom_around (hi : ts[i]? = some t) (expanded : List (List Nat))
    (parent : List Nat)
    (guides : List Bool) (index : Nat) :
    ∃ before after, (∀ b ∈ before ++ after, ¬ parent ++ [index + i] <+: b.path) ∧
      ∀ expanded', (∀ q, ¬ parent ++ [index + i] <+: q → (q ∈ expanded' ↔ q ∈ expanded)) →
        rowsFrom expanded' parent guides index ts =
          before ++ rowsOf expanded' (parent ++ [index + i]) guides (i + 1 = ts.length) t ++ after := by
  induction ts generalizing i index with
  | nil => cases hi
  | cons t' ts ih =>
    cases i with
    | zero =>
      obtain rfl : t' = t := Option.some.inj hi
      have hlast : ts.isEmpty = decide (0 + 1 = (t' :: ts).length) := by cases ts <;> simp
      refine ⟨[], rowsFrom expanded parent guides (index + 1) ts, fun b hb => ?_, fun expanded' h => ?_⟩
      · obtain ⟨j, rest, hj, hp⟩ := path_of_mem_rowsFrom hb
        have hbelow : parent ++ [j] <+: b.path := ⟨rest, by simp [hp]⟩
        exact not_prefix_of_ne (by omega) hbelow
      · rw [rowsFrom, ← hlast, List.nil_append]
        congr 1
        exact rowsFrom_congr parent guides (index + 1) ts fun q j hj hq => h q (not_prefix_of_ne (by omega) hq)
    | succ i =>
      obtain ⟨before, after, hout, hrows⟩ := ih hi (index + 1)
      rw [Nat.add_assoc, Nat.add_comm 1 i] at hout hrows
      have hne : index + (i + 1) ≠ index := by omega
      refine ⟨rowsOf expanded (parent ++ [index]) guides ts.isEmpty t' ++ before, after, fun b hb => ?_,
        fun expanded' h => ?_⟩
      · rw [List.append_assoc, List.mem_append] at hb
        rcases hb with hb | hb
        · obtain ⟨rest, hp⟩ := path_of_mem_rowsOf hb
          exact not_prefix_of_ne hne ⟨rest, hp.symm⟩
        · exact hout b hb
      · have hfirst : rowsOf expanded' (parent ++ [index]) guides ts.isEmpty t' =
            rowsOf expanded (parent ++ [index]) guides ts.isEmpty t' :=
          rowsOf_congr _ guides _ t' fun q hq => h q (not_prefix_of_ne hne hq)
        rw [rowsFrom, hfirst, hrows expanded' h, List.length_cons]
        simp only [Nat.add_right_cancel_iff, List.append_assoc]

/-- The rows around those of an item that is reached. On the way down to it every item goes on showing its
children, as its path is shorter than that of the item. -/
private theorem Reaches.around (h : Reaches expanded parent guides ts path r) :
    ∃ t before after, r = t.row expanded r.path r.guides r.isLast ∧
      (∀ b ∈ before ++ after, ¬ r.path <+: b.path) ∧
      ∀ expanded', (∀ q, ¬ r.path <+: q → (q ∈ expanded' ↔ q ∈ expanded)) →
        rowsFrom expanded' parent guides 0 ts =
          before ++ rowsOf expanded' r.path r.guides r.isLast t ++ after := by
  induction h with
  | @here parent guides ts i t hi =>
    obtain ⟨before, after, hout, hrows⟩ := rowsFrom_around hi expanded parent guides 0
    rw [Nat.zero_add] at hout hrows
    exact ⟨t, before, after, rfl, hout, hrows⟩
  | @inside parent guides ts i t path r hi ht hp hr ih =>
    obtain ⟨item, before, after, hitem, hout, hrows⟩ := ih
    obtain ⟨before', after', hout', hrows'⟩ := rowsFrom_around hi expanded parent guides 0
    rw [Nat.zero_add] at hout' hrows'
    have hpath : r.path = parent ++ [i] ++ path := hr.path_eq
    have hbelow : parent ++ [i] <+: r.path := hpath ▸ List.prefix_append ..
    have hlonger : ¬ r.path <+: parent ++ [i] := fun hle => by
      have hlength := hle.length_le
      have hpos := List.length_pos_iff.mpr hr.ne_nil
      rw [hpath, List.length_append] at hlength
      omega
    let last := decide (i + 1 = ts.length)
    refine ⟨item, before' ++ t.row expanded (parent ++ [i]) guides last :: before, after ++ after', hitem,
      fun b hb => ?_, fun expanded' h => ?_⟩
    · simp only [List.mem_append, List.mem_cons] at hb hout hout'
      rcases hb with (hb | rfl | hb) | hb | hb
      · exact fun hle => hout' b (.inl hb) (hbelow.trans hle)
      · exact hlonger
      · exact hout b (.inl hb)
      · exact hout b (.inr hb)
      · exact fun hle => hout' b (.inr hb) (hbelow.trans hle)
    · have hself : (t.row expanded' (parent ++ [i]) guides last) =
          t.row expanded (parent ++ [i]) guides last := by
        have hc : expanded'.contains (parent ++ [i]) = expanded.contains (parent ++ [i]) :=
          Bool.eq_iff_iff.mpr (by simpa using h _ hlonger)
        rw [Item.row, Item.row, hc]
      have hshows : (t.row expanded (parent ++ [i]) guides last).expanded = true :=
        Item.row_expanded.mpr ⟨ht, hp⟩
      rw [hrows' expanded' fun q hq => h q fun hle => hq (hbelow.trans hle),
        rowsOf_of_expanded (hself ▸ hshows), hself, hrows expanded' h]
      simp only [List.append_assoc, List.cons_append]

theorem visibleRows_congr (h : ∀ q, q ∈ expanded' ↔ q ∈ expanded) (roots : List Item) :
    visibleRows expanded' roots = visibleRows expanded roots :=
  rowsFrom_congr [] [] 0 roots fun q _ _ _ => h q

/-! ### One row more or less that shows its children -/

/-- The row `b` stands for something below what `r` stands for, at whatever depth. -/
def Row.Above (r b : Row) : Prop :=
  r.path <+: b.path ∧ r.path ≠ b.path

/-- The two lists differ in that the row `r`, at `index` in both, hides its children in the first and shows
them in the second: it is marked so, and directly behind it stands one block of rows. All in this block is below
`r`, and nothing else is. -/
def Unfolds (shut : List Row) (index : Nat) (r : Row) (opened : List Row) : Prop :=
  ∃ before block after, before.length = index ∧
    shut = before ++ { r with expanded := false } :: after ∧
    opened = before ++ { r with expanded := true } :: (block ++ after) ∧
    (∀ b ∈ block, r.Above b) ∧ ∀ b ∈ before ++ after, ¬ r.Above b

namespace Unfolds
variable {shut opened : List Row} {index : Nat}

theorem getElem?_shut (h : Unfolds shut index r opened) : shut[index]? = some { r with expanded := false } := by
  obtain ⟨before, block, after, rfl, rfl, -⟩ := h
  simp

theorem getElem?_opened (h : Unfolds shut index r opened) :
    opened[index]? = some { r with expanded := true } := by
  obtain ⟨before, block, after, rfl, -, rfl, -⟩ := h
  simp

end Unfolds

private theorem visibleRows_nodup (expanded : List (List Nat)) (roots : List Item) :
    ((visibleRows expanded roots).map Row.path).Nodup :=
  List.pairwise_map.mpr ((rowsFrom_sorted [] [] 0 roots).imp fun h he => (he ▸ h).false)

/-- No two rows have one path. -/
private theorem index_eq_of_path_eq {i j : Nat} (hi : (visibleRows expanded roots)[i]? = some r)
    (hj : (visibleRows expanded roots)[j]? = some b) (h : r.path = b.path) : i = j := by
  have hpaths : ((visibleRows expanded roots).map Row.path)[i]? =
      ((visibleRows expanded roots).map Row.path)[j]? := by
    rw [List.getElem?_map, List.getElem?_map, hi, hj, Option.map_some, Option.map_some, h]
  have hlt : i < ((visibleRows expanded roots).map Row.path).length := by
    rw [List.length_map]
    exact (List.getElem?_eq_some_iff.mp hi).1
  exact (List.getElem?_inj hlt (visibleRows_nodup expanded roots)).mp hpaths

/-- What the set says of its path is all that the mark of an expandable item depends on. -/
private theorem Item.row_of_expandable (hr : r = t.row expanded r.path r.guides r.isLast)
    (hx : r.expandable = true)
    (paths : List (List Nat)) :
    t.row paths r.path r.guides r.isLast = { r with expanded := paths.contains r.path } := by
  obtain ⟨path, label, expandable, isExpanded, isLast, guides, span⟩ := r
  simp only [Item.row, Row.mk.injEq] at hr hx ⊢
  obtain ⟨-, rfl, rfl, -, -, -, rfl⟩ := hr
  simp [hx]

/-- Taking the path of a row out of the set, or into it, hides or shows what is below this row. -/
theorem visibleRows_unfolds {shut opened : List (List Nat)} {index : Nat}
    (hi : (visibleRows expanded roots)[index]? = some r) (hx : r.expandable = true)
    (hs : ∀ q, q ∈ shut ↔ q ∈ expanded ∧ q ≠ r.path) (ho : ∀ q, q ∈ opened ↔ q ∈ expanded ∨ q = r.path) :
    Unfolds (visibleRows shut roots) index r (visibleRows opened roots) := by
  obtain ⟨t, before, after, hr, hout, hrows⟩ := (mem_visibleRows.mp (List.mem_of_getElem? hi)).around
  have hmark := Item.row_of_expandable hr hx
  have hself {q : List Nat} (hq : ¬ r.path <+: q) : q ≠ r.path := fun he => hq (he ▸ List.prefix_refl _)
  have hshut : visibleRows shut roots = before ++ { r with expanded := false } :: after := by
    have hno : shut.contains r.path = false := by simp [hs]
    have hrow := hmark shut
    rw [hno] at hrow
    rw [visibleRows, hrows shut fun q hq => (hs q).trans (and_iff_left (hself hq)),
      rowsOf_of_not_expanded (by rw [hrow]), hrow, List.append_assoc, List.singleton_append]
  have hopened : visibleRows opened roots = before ++ { r with expanded := true } ::
      (rowsFrom opened r.path (r.guides ++ [!r.isLast]) 0 t.children ++ after) := by
    have hyes : opened.contains r.path = true := by simp [ho]
    have hrow := hmark opened
    rw [hyes] at hrow
    rw [visibleRows, hrows opened fun q hq => (ho q).trans (or_iff_left (hself hq)),
      rowsOf_of_expanded (by rw [hrow]), hrow, List.append_assoc, List.cons_append]
  have hindex : before.length = index := by
    obtain ⟨rest, hself⟩ : ∃ rest, rowsOf expanded r.path r.guides r.isLast t = r :: rest := by
      cases he : r.expanded with
      | true => exact ⟨_, (rowsOf_of_expanded (hr ▸ he)).trans (congrArg (· :: _) hr.symm)⟩
      | false => exact ⟨_, (rowsOf_of_not_expanded (hr ▸ he)).trans (congrArg (· :: []) hr.symm)⟩
    have hall := hrows expanded fun _ _ => Iff.rfl
    rw [hself, List.append_assoc, List.cons_append] at hall
    refine index_eq_of_path_eq ?_ hi rfl
    rw [visibleRows, hall]
    simp
  refine ⟨before, _, after, hindex, hshut, hopened, fun b hb => ?_, fun b hb h => hout b hb h.1⟩
  obtain ⟨j, rest, -, hp⟩ := path_of_mem_rowsFrom hb
  exact ⟨hp ▸ List.prefix_append .., by simp [hp]⟩

theorem expandable_of_expanded (hr : r ∈ visibleRows expanded roots) (hx : r.expanded = true) :
    r.expandable = true := by
  obtain ⟨t, -, he⟩ := Tracker.descend?_of_reaches (mem_visibleRows.mp hr)
  rw [he] at hx ⊢
  exact (Item.row_expanded.mp hx).1

/-- A row that could show its children and does not has a path outside the set. -/
theorem path_not_mem_of_not_expanded (hr : r ∈ visibleRows expanded roots) (hx : r.expandable = true)
    (hc : r.expanded = false) : r.path ∉ expanded := by
  obtain ⟨t, -, he⟩ := Tracker.descend?_of_reaches (mem_visibleRows.mp hr)
  have hmark := Item.row_of_expandable he hx expanded
  rw [← he] at hmark
  have hflag : r.expanded = expanded.contains r.path := congrArg Row.expanded hmark
  simpa [hc] using hflag

/-- A row above another one shows its children. -/
theorem expanded_of_above (hr : r ∈ visibleRows expanded roots) (hb : b ∈ visibleRows expanded roots)
    (h : r.Above b) : r.expanded = true := by
  obtain ⟨item, hitem, he⟩ := Tracker.descend?_of_reaches (mem_visibleRows.mp hr)
  have hvisible := Tracker.mem_paths_visibleRows.mp (List.mem_map_of_mem hb)
  obtain ⟨hp, item', hitem', hx⟩ :=
    hvisible.2 r.path h.1 h.2 (Tracker.descend?_of_mem_visibleRows hr).1
  obtain rfl : item = item' := Option.some.inj (hitem.symm.trans hitem')
  rw [he]
  exact Item.row_expanded.mpr ⟨hx, hp⟩

end YamlOutline.Outline
