import YamlOutline.Outline.Render
import YamlOutline.Proofs.Summary.Reading

/-! Outlines that are printed and read again. Every label is a line of its own, so the outline comes
back exactly if every label can be printed. -/

namespace YamlOutline.Summary

open Outline (Item Kind)

mutual
/-- What an item should be read back as: its kind and label, indented by two blanks for each level,
and the items below it one level deeper. -/
def entryOf (depth : Nat) : Item → Entry
  | ⟨label, kind, _, children⟩ => ⟨⟨kind, label, 2 * depth⟩, entriesOf (depth + 1) children⟩

def entriesOf (depth : Nat) : List Item → List Entry
  | [] => []
  | t :: ts => entryOf depth t :: entriesOf depth ts
end

/-- The text of a line: its indentation, its marker and its label. -/
def Line.text (l : Line) : List Char :=
  List.replicate l.indent ' ' ++ l.kind.marker :: ' ' :: l.label.toList

variable {l : Line} {items : List Item} {depth : Nat} {rest : List Entry}

/-! ### Printed lines -/

private theorem toList_line (depth : Nat) (kind : Kind) (label : String) :
    (Outline.line depth kind label).toList = Line.text ⟨kind, label, 2 * depth⟩ := by
  simp [Outline.line, Line.text]

mutual
/-- An item is printed line by line, itself before its children. -/
private theorem toList_renderItem (depth : Nat) : (t : Item) → (Outline.renderItem depth t).toList =
    Text.join ['\n'] ((entryOf depth t).lines.map Line.text) []
  | ⟨label, kind, _, children⟩ => by
    rw [Outline.renderItem, entryOf, Entry.lines, List.map_cons, Text.join_cons,
      ← toList_renderItems (depth + 1) children, ← toList_line]
    simp

private theorem toList_renderItems (depth : Nat) : (ts : List Item) →
    (Outline.renderItems depth ts).toList =
      Text.join ['\n'] ((linesIn (entriesOf depth ts)).map Line.text) []
  | [] => rfl
  | t :: ts => by
    rw [Outline.renderItems, String.toList_append, toList_renderItem depth t,
      toList_renderItems depth ts, entriesOf, linesIn, List.map_append, Text.join_append]
end

/-- A marker and a blank before the label: the line says what it was made of. -/
private theorem Line.ofText?_text (l : Line) :
    Line.ofText? l.text = some { l with label := .ofList (Text.trim l.label.toList) } := by
  have hblank : ∀ c ∈ List.replicate l.indent ' ', Text.isBlank c = true := by
    intro c hc
    rw [List.eq_of_mem_replicate hc]
    rfl
  have hmarker : Text.isBlank l.kind.marker = false := by cases l.kind <;> rfl
  rw [Line.ofText?, Text.trimStart, Line.text, List.takeWhile_append_of_pos hblank,
    List.dropWhile_append_of_pos hblank, List.takeWhile_cons_of_neg (by simp [hmarker]),
    List.dropWhile_cons_of_neg (by simp [hmarker])]
  have hspace := Text.trim_cons_of_isBlank (c := ' ') rfl l.label.toList
  cases hk : l.kind <;> simp [Kind.marker, hspace]

/-- A printable label keeps its line whole, and no carriage return ends it. -/
private theorem Printable.text (h : Printable l.label) :
    '\n' ∉ l.text ∧ Text.dropReturn l.text = l.text := by
  obtain ⟨hn, ht⟩ := h
  constructor
  · have hmarker : '\n' ≠ l.kind.marker := by cases l.kind <;> decide
    simp [Line.text, hn, hmarker]
  · refine Text.dropReturn_eq_self fun hr => ?_
    rw [Line.text, List.getLast?_append_of_ne_nil _ (by simp), List.getLast?_cons_cons] at hr
    cases hl : l.label.toList with
    | nil => simp [hl] at hr
    | cons c cs =>
      rw [hl, List.getLast?_cons_cons, ← hl] at hr
      exact absurd ((Text.trim_eq_self_iff.mp ht).2 _ hr) (by decide)

private theorem Printable.ofText?_text (h : Printable l.label) : Line.ofText? l.text = some l := by
  rw [Line.ofText?_text, h.2, String.ofList_toList]

/-- Printed lines are read as they were, if their labels can be printed. -/
private theorem linesOf_render (h : ∀ l ∈ linesIn (entriesOf 0 items), Printable l.label) :
    linesOf (Outline.render items) = linesIn (entriesOf 0 items) := by
  rw [linesOf, Outline.render, toList_renderItems]
  generalize linesIn (entriesOf 0 items) = ls at h
  rw [Text.rows_join (List.forall_mem_map.mpr fun l hl => (h l hl).text.1), List.map_map,
    List.filterMap_map]
  induction ls with
  | nil => rfl
  | cons l ls ih =>
    obtain ⟨hl, hls⟩ := List.forall_mem_cons.mp h
    rw [List.filterMap_cons_some (b := l), ih hls]
    simp [hl.text.2, hl.ofText?_text]

/-! ### Nesting by indentation -/

private theorem indent_entryOf (depth : Nat) (t : Item) :
    (entryOf depth t).line.indent = 2 * depth := by
  cases t
  rfl

private theorem indent_of_mem_entriesOf {ts : List Item} :
    ∀ e ∈ entriesOf depth ts, e.line.indent = 2 * depth := by
  induction ts with
  | nil => nofun
  | cons t ts ih => exact List.forall_mem_cons.mpr ⟨indent_entryOf depth t, ih⟩

/-- A line takes the items one level deeper, and nothing of what ends at its own level. -/
private theorem insert_entriesOf (hl : l.indent = 2 * depth) (hr : EndsAt (2 * depth) rest)
    (ts : List Item) :
    insert l (entriesOf (depth + 1) ts ++ rest) = ⟨l, entriesOf (depth + 1) ts⟩ :: rest := by
  have hdeep : ∀ e ∈ entriesOf (depth + 1) ts, decide (l.indent < e.line.indent) = true := by
    intro e he
    rw [indent_of_mem_entriesOf e he, hl]
    simp
  have hstop : rest.takeWhile (l.indent < ·.line.indent) = [] ∧
      rest.dropWhile (l.indent < ·.line.indent) = rest := by
    cases rest with
    | nil => exact ⟨rfl, rfl⟩
    | cons e rest =>
      have he : ¬ decide (l.indent < e.line.indent) = true := by
        have hle := hr e rfl
        simpa [hl] using hle
      exact ⟨List.takeWhile_cons_of_neg he, List.dropWhile_cons_of_neg he⟩
  rw [insert, List.takeWhile_append_of_pos hdeep, List.dropWhile_append_of_pos hdeep, hstop.1,
    hstop.2, List.append_nil]

mutual
/-- The lines of an item, one put before the other, nest to the item. -/
private theorem foldr_lines_entryOf (depth : Nat) : (t : Item) → ∀ rest, EndsAt (2 * depth) rest →
    (entryOf depth t).lines.foldr insert rest = entryOf depth t :: rest
  | ⟨label, kind, _, children⟩, rest, hr => by
    have hdeep : EndsAt (2 * (depth + 1)) rest := fun e he => Nat.le_trans (hr e he) (by omega)
    rw [entryOf, Entry.lines, List.foldr_cons, foldr_linesIn_entriesOf (depth + 1) children rest hdeep]
    exact insert_entriesOf rfl hr children

private theorem foldr_linesIn_entriesOf (depth : Nat) : (ts : List Item) → ∀ rest,
    EndsAt (2 * depth) rest →
    (linesIn (entriesOf depth ts)).foldr insert rest = entriesOf depth ts ++ rest
  | [], _, _ => rfl
  | t :: ts, rest, hr => by
    have hnext : EndsAt (2 * depth) (entriesOf depth ts ++ rest) := by
      intro e he
      cases ts with
      | nil => exact hr e he
      | cons t' ts =>
        obtain rfl : entryOf depth t' = e := Option.some.inj he
        exact Nat.le_of_eq (indent_entryOf depth t')
    rw [entriesOf, linesIn, List.foldr_append, foldr_linesIn_entriesOf depth ts rest hr,
      foldr_lines_entryOf depth t _ hnext, List.cons_append]
end

/-- An outline is read back as it was printed exactly if all its labels can be printed. -/
theorem parse_render_iff : parse (Outline.render items) = entriesOf 0 items ↔
    ∀ l ∈ linesIn (entriesOf 0 items), Printable l.label := by
  constructor
  · intro h l hl
    rw [← h] at hl
    exact printable_of_mem_parse hl
  · intro h
    have hend : EndsAt 0 [] := by
      intro e he
      cases he
    rw [parse_eq_foldr, linesOf_render h, foldr_linesIn_entriesOf 0 items [] hend, List.append_nil]

mutual
/-- The labels of an item and of the items below it, from top to bottom. -/
def labelsOf : Item → List String
  | ⟨label, _, _, children⟩ => label :: labelsIn children

def labelsIn : List Item → List String
  | [] => []
  | t :: ts => labelsOf t ++ labelsIn ts
end

mutual
/-- Every line says the label of its item, whatever its kind and depth. -/
private theorem map_label_lines (depth : Nat) : (t : Item) →
    (entryOf depth t).lines.map Line.label = labelsOf t
  | ⟨label, _, _, children⟩ => by
    rw [entryOf, Entry.lines, List.map_cons, map_label_linesIn (depth + 1) children, labelsOf]

private theorem map_label_linesIn (depth : Nat) : (ts : List Item) →
    (linesIn (entriesOf depth ts)).map Line.label = labelsIn ts
  | [] => rfl
  | t :: ts => by
    rw [entriesOf, linesIn, List.map_append, map_label_lines depth t, map_label_linesIn depth ts,
      labelsIn]
end

/-- A forest of items of any shape and any kinds, printed and read as a summary, is the same forest
with two blanks of indentation for each level exactly if none of its labels has a newline in it or
white space at an end. -/
theorem forest_read_back_iff (forest : List Item) :
    parse (Outline.render forest) = entriesOf 0 forest ↔
      ∀ label ∈ labelsIn forest, '\n' ∉ label.toList ∧ Text.trim label.toList = label.toList := by
  rw [parse_render_iff, ← map_label_linesIn 0 forest]
  constructor
  · intro h label hl
    obtain ⟨l, hm, rfl⟩ := List.mem_map.mp hl
    exact h l hm
  · intro h l hm
    exact h l.label (List.mem_map_of_mem hm)

end YamlOutline.Summary
