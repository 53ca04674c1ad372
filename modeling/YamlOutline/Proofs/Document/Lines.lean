import YamlOutline.Document
import YamlOutline.Proofs.Text.LineIndex
import YamlOutline.Proofs.Text.Lines

/-! The lines of a document are the pieces of its text. Every line that the index lists is a slice of the
text, from the place where the index says that it begins to the newline before the next one. -/

namespace YamlOutline

namespace Text
variable {cs l : List Char} {lines : List (List Char)} {i : Nat}

private theorem count_join (h : ∀ l ∈ lines, '\n' ∉ l) :
    (join ['\n'] lines []).count '\n' = lines.length := by
  have hp := length_pieces '\n' (join ['\n'] lines [])
  rw [pieces_join h (by simp)] at hp
  simpa using hp.symm

/-- Finished lines have nothing behind the last newline. -/
private theorem rdropWhile_join (lines : List (List Char)) :
    (join ['\n'] lines []).rdropWhile (· != '\n') = join ['\n'] lines [] := by
  rcases List.eq_nil_or_concat lines with rfl | ⟨init, l, rfl⟩
  · rfl
  · rw [List.concat_eq_append, join_append, join_cons, join_nil, List.append_nil, ← List.append_assoc]
    exact List.rdropWhile_concat_neg _ _ _ (by simp)

/-- A piece stands behind as many finished lines as its number says, and before a newline or the end. -/
private theorem exists_of_getElem?_pieces (h : (pieces '\n' cs)[i]? = some l) : ∃ before after,
    cs = before ++ l ++ after ∧ before.count '\n' = i ∧ before.rdropWhile (· != '\n') = before ∧
      (after = [] ∨ ∃ r, after = '\n' :: r) ∧ '\n' ∉ l := by
  obtain ⟨lines, last, hp, he, hlines, hlast⟩ := exists_join '\n' cs
  rw [hp] at h
  have htake : ∀ k ∈ lines.take i, '\n' ∉ k := fun k hk => hlines k (List.mem_of_mem_take hk)
  have hle : i ≤ lines.length := by
    have hlt := (List.getElem?_eq_some_iff.mp h).1
    simp only [List.length_append, List.length_singleton] at hlt
    omega
  have hcount : (join ['\n'] (lines.take i) []).count '\n' = i := by
    rw [count_join htake, List.length_take, Nat.min_eq_left hle]
  rcases Nat.lt_or_eq_of_le hle with hi | rfl
  · rw [List.getElem?_append_left hi, List.getElem?_eq_getElem hi] at h
    obtain rfl := Option.some.inj h
    refine ⟨_, '\n' :: join ['\n'] (lines.drop (i + 1)) last, ?_, hcount, rdropWhile_join _,
      .inr ⟨_, rfl⟩, hlines _ (List.getElem_mem hi)⟩
    have hsplit : lines = lines.take i ++ lines[i] :: lines.drop (i + 1) := by simp
    rw [he]
    conv_lhs => rw [hsplit, join_append, join_cons]
    simp only [List.append_assoc, List.singleton_append]
  · rw [List.getElem?_concat_length] at h
    obtain rfl := Option.some.inj h
    rw [List.take_length] at hcount
    exact ⟨_, [], by simp [he, join], hcount, rdropWhile_join _, .inl rfl, hlast⟩

end Text

namespace Document
open Text (pieces size slice? join dropEndWhile isReturn)
variable {d : Document} {i : Nat} {l : List Char}

theorem lineCount_eq (d : Document) : d.lineCount = d.text.toList.count '\n' + 1 :=
  Text.size_lineStarts _

theorem lineCount_eq_length (d : Document) : d.lineCount = (pieces '\n' d.text.toList).length := by
  rw [lineCount_eq, Text.length_pieces]

theorem lineCount_pos (d : Document) : 0 < d.lineCount := by
  rw [lineCount_eq]
  exact Nat.succ_pos _

/-- Every piece of the text is the slice that the index gives for its number. -/
theorem exists_slice (h : (pieces '\n' d.text.toList)[i]? = some l) :
    ∃ start, d.lineStarts[i]? = some start ∧ slice? d.text.toList start (d.lineStop i) = some l := by
  obtain ⟨before, after, ht, rfl, hclosed, hafter, hl⟩ := Text.exists_of_getElem?_pieces h
  have hstart : d.lineStarts[before.count '\n']? = some (size before) := by
    rw [lineStarts, ht, List.append_assoc, Text.getElem?_lineStarts, hclosed]
  have hstop : d.lineStop (before.count '\n') = size before + size l := by
    rcases hafter with rfl | ⟨r, rfl⟩
    · -- The last line: there is no other behind it in the index.
      have hnone : d.lineStarts[before.count '\n' + 1]? = none := by
        rw [Array.getElem?_eq_none_iff, lineStarts, Text.size_lineStarts, ht]
        simp [List.count_eq_zero_of_not_mem hl]
      rw [lineStop, hnone, ht]
      simp
    · have hnext : d.lineStarts[before.count '\n' + 1]? = some (size before + size l + 1) := by
        have hend : (before ++ l ++ ['\n']).rdropWhile (· != '\n') = before ++ l ++ ['\n'] :=
          List.rdropWhile_concat_neg _ _ _ (by simp)
        have hn := Text.getElem?_lineStarts (before ++ l ++ ['\n']) r
        have hsize : size ['\n'] = 1 := rfl
        rw [hend, Text.size_append, Text.size_append, hsize, List.count_append, List.count_append,
          List.count_eq_zero_of_not_mem hl, List.count_singleton_self, List.append_assoc] at hn
        rw [lineStarts, ht]
        exact hn
      rw [lineStop, hnext]
      exact Nat.add_sub_cancel _ 1
  refine ⟨_, hstart, ?_⟩
  rw [hstop, ht]
  exact Text.slice?_append before l after

/-- The index never leads out of the text. -/
theorem line?_eq (d : Document) (i : Nat) : d.line? i =
    some (((pieces '\n' d.text.toList)[i]?).elim "" fun l => .ofList (dropEndWhile isReturn l)) := by
  cases hp : (pieces '\n' d.text.toList)[i]? with
  | none =>
    have hnone : d.lineStarts[i]? = none := by
      rw [Array.getElem?_eq_none_iff, ← lineCount, lineCount_eq_length]
      exact List.getElem?_eq_none_iff.mp hp
    simp [line?, hnone]
  | some l =>
    obtain ⟨start, hs, hl⟩ := exists_slice hp
    simp [line?, hs, hl]

theorem line_eq (d : Document) (i : Nat) :
    d.line i = ((pieces '\n' d.text.toList)[i]?).elim "" fun l => .ofList (dropEndWhile isReturn l) := by
  rw [line, line?_eq, Option.getD_some]

end Document

end YamlOutline
