import YamlOutline.Proofs.Summary.Folding
import YamlOutline.Proofs.Text.Blank

/-! What a summary is read as. Nesting neither loses a line nor changes the order of lines, and
every label that was read would be read again. -/

namespace YamlOutline.Summary

/-- The label survives being put on a line of its own: it has no newline and no blanks around it. -/
def Printable (label : String) : Prop :=
  '\n' ∉ label.toList ∧ Text.trim label.toList = label.toList

instance (label : String) : Decidable (Printable label) :=
  inferInstanceAs (Decidable (_ ∧ _))

mutual
/-- The lines of a forest from its top to its bottom. -/
def Entry.lines : Entry → List Line
  | ⟨line, children⟩ => line :: linesIn children

def linesIn : List Entry → List Line
  | [] => []
  | e :: es => e.lines ++ linesIn es
end

variable {l : Line} {text : String} {cs : List Char}

@[simp] theorem linesIn_append (es fs : List Entry) :
    linesIn (es ++ fs) = linesIn es ++ linesIn fs := by
  induction es with
  | nil => rfl
  | cons e es ih => rw [List.cons_append, linesIn, linesIn, ih, List.append_assoc]

/-- What a line takes below itself stays where it was. -/
private theorem linesIn_insert (l : Line) (forest : List Entry) :
    linesIn (insert l forest) = l :: linesIn forest := by
  rw [insert, linesIn, Entry.lines, List.cons_append, ← linesIn_append,
    List.takeWhile_append_dropWhile]

/-- Reading a summary only nests its lines. -/
theorem linesIn_parse (text : String) : linesIn (parse text) = linesOf text := by
  rw [parse_eq_foldr]
  induction linesOf text with
  | nil => rfl
  | cons l ls ih => rw [List.foldr_cons, linesIn_insert, ih]

/-- The label of a line is trimmed, so that trimming it again does nothing. -/
private theorem Line.printable (h : Line.ofText? cs = some l) (hn : '\n' ∉ cs) :
    Printable l.label := by
  have of_trim {r : List Char} (hr : '\n' ∉ r) : Printable (.ofList (Text.trim r)) :=
    ⟨by simpa using fun hm => hr (Text.mem_of_mem_trim hm), by simp⟩
  have hstart : '\n' ∉ Text.trimStart cs := fun hm =>
    hn ((List.dropWhile_suffix Text.isBlank).mem hm)
  unfold Line.ofText? at h
  generalize Text.trimStart cs = body at h hstart
  cases body with
  | nil => cases h
  | cons c r =>
    have hr : '\n' ∉ r := fun hm => hstart (List.mem_cons_of_mem c hm)
    simp only [Option.some.injEq] at h
    subst h
    split
    · exact of_trim hr
    · split
      · exact of_trim hr
      · exact of_trim hstart

/-- Whatever text is read, its labels can be printed. -/
theorem printable_of_mem_parse (h : l ∈ linesIn (parse text)) : Printable l.label := by
  rw [linesIn_parse, linesOf] at h
  obtain ⟨row, hr, hl⟩ := List.mem_filterMap.mp h
  exact Line.printable hl (Text.newline_notMem_of_mem_rows hr)

end YamlOutline.Summary
