import Mathlib.Data.List.DropRight
import YamlOutline.Proofs.Text.Offset
import YamlOutline.Text.LineIndex

/-! The line index of a text. Where the text is cut in two, the index is too: the lines that begin at or
before the cut are those that the newlines before it finish, and one more, on which the cut lies. -/

namespace YamlOutline.Text
variable {cs before after : List Char} {offset n k lo hi : Nat} {table : Array Nat}

/-! ### Halving -/

/-- Halving finds the place where the entries pass `n`, wherever the search stands. -/
private theorem bisect_eq (hle : ∀ i (h : i < table.size), i < k → table[i] ≤ n)
    (hgt : ∀ i (h : i < table.size), k ≤ i → n < table[i]) (h : hi ≤ table.size) (hlo : lo ≤ k)
    (hhi : k ≤ hi) : bisect table n lo hi h = k := by
  fun_induction bisect table n lo hi h with
  | case1 lo hi h hlt mid hmid ih =>
    -- The entry in the middle is not beyond `n`, so `k` is to the right of it.
    refine ih (Nat.lt_of_not_le fun hk => ?_) hhi
    exact Nat.not_lt_of_le hmid (hgt mid _ hk)
  | case2 lo hi h hlt mid hmid ih =>
    refine ih hlo (Nat.le_of_not_lt fun hk => ?_)
    exact hmid (hle mid _ hk)
  | case3 lo hi h hlt => omega

/-- A table in two parts, of entries up to `n` and of entries beyond it. -/
private theorem partitionPoint_of_append {small large : List Nat} (hs : ∀ x ∈ small, x ≤ n)
    (hl : ∀ x ∈ large, n < x) : partitionPoint (small ++ large).toArray n = small.length := by
  refine bisect_eq (fun i h hi => ?_) (fun i h hi => ?_) _ (Nat.zero_le _) (by simp)
  · rw [List.getElem_toArray, List.getElem_append_left hi]
    exact hs _ (List.getElem_mem hi)
  · rw [List.getElem_toArray, List.getElem_append_right hi]
    exact hl _ (List.getElem_mem _)

/-! ### Newlines -/

private theorem newlinesFrom_append (offset : Nat) (before after : List Char) :
    newlinesFrom offset (before ++ after) =
      newlinesFrom offset before ++ newlinesFrom (offset + size before) after := by
  induction before generalizing offset with
  | nil => rfl
  | cons c before ih =>
    simp only [List.cons_append, newlinesFrom, ih, size, Nat.add_assoc]
    split <;> rfl

private theorem length_newlinesFrom (offset : Nat) (cs : List Char) :
    (newlinesFrom offset cs).length = cs.count '\n' := by
  induction cs generalizing offset with
  | nil => rfl
  | cons c cs ih =>
    by_cases hc : c = '\n'
    · simp [newlinesFrom, hc, ih]
    · simp [newlinesFrom, hc, ih]

/-- A newline takes one byte of the text. -/
private theorem of_mem_newlinesFrom (h : n ∈ newlinesFrom offset cs) :
    offset ≤ n ∧ n < offset + size cs := by
  induction cs generalizing offset with
  | nil => cases h
  | cons c cs ih =>
    have hpos := c.utf8Size_pos
    have hrest (hr : n ∈ newlinesFrom (offset + c.utf8Size) cs) :
        offset ≤ n ∧ n < offset + size (c :: cs) := by
      obtain ⟨hlo, hhi⟩ := ih hr
      rw [size]
      omega
    rw [newlinesFrom] at h
    split at h
    · rcases List.mem_cons.mp h with rfl | hr
      · rw [size]
        omega
      · exact hrest hr
    · exact hrest h

/-! ### The index -/

/-- The index of a text in two parts. -/
private theorem lineStarts_append (before after : List Char) : lineStarts (before ++ after) =
    (0 :: (newlinesFrom 0 before).map (· + 1) ++ (newlinesFrom (size before) after).map (· + 1)).toArray := by
  rw [lineStarts, newlinesFrom_append, Nat.zero_add, List.map_append, List.cons_append]

theorem size_lineStarts (cs : List Char) : (lineStarts cs).size = cs.count '\n' + 1 := by
  simp [lineStarts, length_newlinesFrom]

/-- As many lines begin at or before a cut as newlines stand before it, and the first one. -/
theorem partitionPoint_lineStarts (before after : List Char) :
    partitionPoint (lineStarts (before ++ after)) (size before) = before.count '\n' + 1 := by
  rw [lineStarts_append, partitionPoint_of_append]
  · simp [length_newlinesFrom]
  · simp only [List.mem_cons, List.mem_map]
    rintro x (rfl | ⟨m, hm, rfl⟩)
    · exact Nat.zero_le _
    · have hlt := (of_mem_newlinesFrom hm).2
      omega
  · simp only [List.mem_map]
    rintro x ⟨m, hm, rfl⟩
    exact Nat.lt_succ_of_le (of_mem_newlinesFrom hm).1

/-- The line on which a cut lies begins behind the last newline before it. -/
theorem getElem?_lineStarts (before after : List Char) :
    (lineStarts (before ++ after))[before.count '\n']? =
      some (size (before.rdropWhile (· != '\n'))) := by
  induction before using List.reverseRecOn generalizing after with
  | nil => simp [lineStarts, size]
  | append_singleton before c ih =>
    by_cases hc : c = '\n'
    · subst hc
      have hn : newlinesFrom (size before) ('\n' :: after) =
          size before :: newlinesFrom (size before + 1) after := rfl
      have hsize : size (before ++ ['\n']) = size before + 1 := size_append ..
      have hlast : (before ++ ['\n']).rdropWhile (· != '\n') = before ++ ['\n'] :=
        List.rdropWhile_concat_neg _ _ _ (by simp)
      rw [hlast, hsize, List.append_assoc, List.singleton_append, lineStarts_append, hn]
      simp [← length_newlinesFrom 0 before]
    · have hdrop : (before ++ [c]).rdropWhile (· != '\n') = before.rdropWhile (· != '\n') :=
        List.rdropWhile_concat_pos _ _ _ (by simpa using hc)
      rw [hdrop, List.append_assoc, List.count_append, List.count_singleton, if_neg (by simpa using hc)]
      exact ih (c :: after)

/-- What stands between the beginning of a line and a cut on it. -/
theorem slice?_lineStarts (before after : List Char) :
    slice? (before ++ after) (size (before.rdropWhile (· != '\n'))) (size before) =
      some (before.rtakeWhile (· != '\n')) := by
  have hcut : before.rdropWhile (· != '\n') ++ before.rtakeWhile (· != '\n') = before :=
    List.rdropWhile_append_rtakeWhile
  have hslice := slice?_append (before.rdropWhile (· != '\n')) (before.rtakeWhile (· != '\n')) after
  rwa [hcut, ← size_append, hcut] at hslice

end YamlOutline.Text
