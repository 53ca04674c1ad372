import YamlOutline.Proofs.Outline.Rows
import YamlOutline.Tracker

/-! Paths of child indices. The path of a row leads to the item that the row shows, and every beginning of
the path leads to an item above it. -/

namespace YamlOutline

namespace Outline

/-- The item that a path of child indices leads to from an item. -/
def Item.at? (t : Item) : List Nat → Option Item
  | [] => some t
  | i :: path => t.children[i]?.bind fun c => c.at? path

/-- The row shows the item. -/
def Row.Shows (r : Row) (t : Item) : Prop :=
  r.label = t.label ∧ r.span = t.span

end Outline

namespace Tracker
open Outline (Item Row Reaches visibleRows)
variable {items : List Item} {item : Item} {path : List Nat} {r : Row}

theorem descend?_cons (items : List Item) (i : Nat) (path : List Nat) :
    descend? items (i :: path) = items[i]?.bind fun t => t.at? path := by
  induction path generalizing items i with
  | nil => simp [descend?, Item.at?]
  | cons j path ih =>
    rw [descend?]
    cases items[i]? with
    | none => rfl
    | some t => exact ih t.children j

/-- Below an item the path goes on among its children. -/
theorem descend?_inside {t : Item} {i : Nat} (hi : items[i]? = some t) (hp : path ≠ []) :
    descend? items (i :: path) = descend? t.children path := by
  obtain ⟨j, path, rfl⟩ := List.exists_cons_of_ne_nil hp
  rw [descend?_cons, hi, descend?_cons]
  rfl

private theorem at?_append (t : Item) (path rest : List Nat) :
    t.at? (path ++ rest) = (t.at? path).bind fun u => u.at? rest := by
  induction path generalizing t with
  | nil => rfl
  | cons i path ih =>
    rw [List.cons_append, Item.at?, Item.at?, Option.bind_assoc]
    exact Option.bind_congr fun c _ => ih c

/-- Behind a path that leads to an item, one more index leads to a child. -/
theorem descend?_concat (hp : path ≠ []) (i : Nat) :
    descend? items (path ++ [i]) = (descend? items path).bind fun t => t.children[i]? := by
  obtain ⟨j, path, rfl⟩ := List.exists_cons_of_ne_nil hp
  rw [List.cons_append, descend?_cons, descend?_cons, Option.bind_assoc]
  refine Option.bind_congr fun t _ => (at?_append t path [i]).trans (Option.bind_congr fun u _ => ?_)
  simp [Item.at?]

/-- Where a path leads somewhere, every beginning of it does. -/
theorem descend?_take (h : descend? items path = some item) {k : Nat} (hk : k < path.length) :
    ∃ item, descend? items (path.take (k + 1)) = some item := by
  induction path generalizing items k with
  | nil => simp at hk
  | cons i path ih =>
    rw [descend?_cons, Option.bind_eq_some_iff] at h
    obtain ⟨t, ht, hat⟩ := h
    rw [List.take_succ_cons, descend?_cons, ht, Option.bind_some]
    cases path with
    | nil => exact ⟨t, by rw [List.take_nil, Item.at?]⟩
    | cons j path =>
      cases k with
      | zero => exact ⟨t, rfl⟩
      | succ k =>
        have hc : descend? t.children (j :: path) = some item := by rw [descend?_cons]; exact hat
        obtain ⟨item', hi⟩ := ih hc (Nat.lt_of_succ_lt_succ hk)
        rw [List.take_succ_cons, descend?_cons] at hi
        exact ⟨item', hi⟩

/-- The indices that reach a row lead to the item that the row shows, and the row has from the item all that
does not depend on where the item stands. -/
theorem descend?_of_reaches {expanded : List (List Nat)} {parent : List Nat} {guides : List Bool}
    (h : Reaches expanded parent guides items path r) :
    ∃ item, descend? items path = some item ∧ r = item.row expanded r.path r.guides r.isLast := by
  induction h with
  | here hi => exact ⟨_, hi, rfl⟩
  | inside hi _ _ hr ih =>
    obtain ⟨item, hitem, he⟩ := ih
    refine ⟨item, ?_, he⟩
    rw [descend?_inside hi hr.ne_nil, hitem]

/-- A row's path is that of the item that it shows. -/
theorem descend?_of_mem_visibleRows {expanded : List (List Nat)} (h : r ∈ visibleRows expanded items) :
    r.path ≠ [] ∧ ∃ item, descend? items r.path = some item ∧ r.Shows item := by
  obtain ⟨item, hitem, he⟩ := descend?_of_reaches (Outline.mem_visibleRows.mp h)
  refine ⟨?_, item, hitem, ?_⟩
  · rintro hp
    rw [hp] at hitem
    cases hitem
  · rw [he]
    exact ⟨rfl, rfl⟩

end Tracker

end YamlOutline
