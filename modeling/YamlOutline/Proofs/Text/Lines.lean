import Mathlib.Data.List.DropRight
import YamlOutline.Text.Blank
import YamlOutline.Text.Lines

/-! Texts as finished lines and an unfinished last one. Cutting at a separator is undone by joining,
and a text is joined from its pieces in one way only. -/

namespace YamlOutline.Text

/-- Finished lines with their line ending, and the unfinished last line. -/
def join (ending : List Char) (lines : List (List Char)) (last : List Char) : List Char :=
  lines.flatMap (· ++ ending) ++ last

variable {ending last last' cs : List Char} {lines lines' : List (List Char)}

@[simp] theorem join_nil (ending last : List Char) : join ending [] last = last := rfl

@[simp] theorem join_cons (ending : List Char) (l : List Char) (lines : List (List Char))
    (last : List Char) : join ending (l :: lines) last = l ++ ending ++ join ending lines last := by
  simp [join]

theorem join_append (ending : List Char) (lines lines' : List (List Char)) (last : List Char) :
    join ending (lines ++ lines') last = join ending lines [] ++ join ending lines' last := by
  simp [join]

theorem intercalate_concat (ending : List Char) (lines : List (List Char)) (last : List Char) :
    ending.intercalate (lines ++ [last]) = join ending lines last := by
  induction lines with
  | nil => simp
  | cons l lines ih =>
    rw [List.cons_append, List.intercalate_cons_of_ne_nil (by simp), ih, join_cons]

section
variable {separator : Char}

theorem pieces_eq_splitOn (separator : Char) (cs : List Char) : pieces separator cs = cs.splitOn separator := by
  induction cs with
  | nil => rfl
  | cons c cs ih =>
    rw [pieces, List.splitOn_cons_eq_if_modifyHead, ih]
    simp only [beq_iff_eq]
    split
    · rfl
    · cases hs : cs.splitOn separator with
      | nil => exact absurd hs (by simp)
      | cons p ps => rfl

theorem pieces_join (h : ∀ l ∈ lines, separator ∉ l) (hl : separator ∉ last) :
    pieces separator (join [separator] lines last) = lines ++ [last] := by
  rw [pieces_eq_splitOn, ← intercalate_concat]
  refine List.splitOn_intercalate separator (fun l hm => ?_) (by simp)
  rcases List.mem_append.mp hm with hm | hm
  · exact h l hm
  · exact List.mem_singleton.mp hm ▸ hl

/-- Every text is joined from its pieces. -/
theorem exists_join (separator : Char) (cs : List Char) : ∃ lines last, pieces separator cs = lines ++ [last] ∧
    cs = join [separator] lines last ∧ (∀ l ∈ lines, separator ∉ l) ∧ separator ∉ last := by
  induction cs with
  | nil => exact ⟨[], [], rfl, rfl, by simp, by simp⟩
  | cons c cs ih =>
    obtain ⟨lines, last, hp, he, hn, hl⟩ := ih
    by_cases hc : c = separator
    · refine ⟨[] :: lines, last, by simp [pieces, hc, hp], by simp [hc, ← he], ?_, hl⟩
      exact List.forall_mem_cons.mpr ⟨by simp, hn⟩
    · have hc' : separator ≠ c := Ne.symm hc
      cases lines with
      | nil =>
        refine ⟨[], c :: last, by simp [pieces, hc, hp], by simp [he], by simp, ?_⟩
        exact List.not_mem_cons_of_ne_of_not_mem hc' hl
      | cons l lines =>
        obtain ⟨hl', hn⟩ := List.forall_mem_cons.mp hn
        refine ⟨(c :: l) :: lines, last, by simp [pieces, hc, hp], by simp [he], ?_, hl⟩
        exact List.forall_mem_cons.mpr ⟨List.not_mem_cons_of_ne_of_not_mem hc' hl', hn⟩

theorem join_inj (h : ∀ l ∈ lines, separator ∉ l) (hl : separator ∉ last) (h' : ∀ l ∈ lines', separator ∉ l)
    (hl' : separator ∉ last') (he : join [separator] lines last = join [separator] lines' last') :
    lines = lines' ∧ last = last' := by
  have hp := congrArg (pieces separator) he
  rw [pieces_join h hl, pieces_join h' hl'] at hp
  exact List.append_inj' hp rfl |>.imp id (by simp)

theorem pieces_ne_nil (separator : Char) (cs : List Char) : pieces separator cs ≠ [] := by
  obtain ⟨lines, last, hp, -⟩ := exists_join separator cs
  simp [hp]

theorem pieces_of_notMem (h : separator ∉ cs) : pieces separator cs = [cs] :=
  pieces_join (List.forall_mem_nil _) h

theorem pieces_append_separator (separator : Char) (cs ds : List Char) :
    pieces separator (cs ++ separator :: ds) = pieces separator cs ++ pieces separator ds := by
  obtain ⟨lines, last, hp, hcs, hlines, hlast⟩ := exists_join separator cs
  obtain ⟨lines', last', hp', hds, hlines', hlast'⟩ := exists_join separator ds
  have hjoin : cs ++ separator :: ds = join [separator] (lines ++ last :: lines') last' := by
    rw [join_append, join_cons, ← hds, hcs]
    simp [join]
  rw [hjoin, hp, hp', pieces_join ?_ hlast', List.append_assoc, List.append_assoc]
  · rfl
  · exact List.forall_mem_append.mpr ⟨hlines, List.forall_mem_cons.mpr ⟨hlast, hlines'⟩⟩

theorem pieces_eq_nil_iff : pieces separator cs = [[]] ↔ cs = [] := by
  constructor
  · intro h
    obtain ⟨lines, last, hp, hcs, -⟩ := exists_join separator cs
    have hsplit : [] ++ [[]] = lines ++ [last] := h.symm.trans hp
    obtain ⟨rfl, hlast⟩ := List.append_inj' hsplit rfl
    obtain rfl := List.singleton_inj.mp hlast
    exact hcs
  · rintro rfl
    rfl

theorem length_pieces (separator : Char) (cs : List Char) :
    (pieces separator cs).length = cs.count separator + 1 := by
  induction cs with
  | nil => rfl
  | cons c cs ih =>
    by_cases hc : c = separator
    · simp [pieces, hc, ih]
    · rw [pieces, if_neg hc, List.count_cons_of_ne hc]
      cases hp : pieces separator cs with
      | nil => exact absurd hp (pieces_ne_nil separator cs)
      | cons p ps => simpa [hp] using ih

end

/-! ### Carriage returns at the end of a line -/

/-- The number of carriage returns at the end. -/
def returns (cs : List Char) : Nat :=
  (cs.rtakeWhile isReturn).length

theorem dropEndWhile_eq_rdropWhile (p : Char → Bool) (cs : List Char) :
    dropEndWhile p cs = cs.rdropWhile p := by
  induction cs with
  | nil => rfl
  | cons c cs ih =>
    have hd : (c :: cs).rdropWhile p =
        if cs.rdropWhile p = [] then (if p c then [] else [c]) else c :: cs.rdropWhile p := by
      simp only [List.rdropWhile, List.reverse_cons, List.dropWhile_append, List.isEmpty_iff,
        List.reverse_eq_nil_iff]
      split
      · by_cases hc : p c <;> simp [hc]
      · simp
    rw [dropEndWhile, ih, hd]
    cases cs.rdropWhile p <;> simp

/-- A line is what is left without the carriage returns at its end, and those. -/
private theorem dropEndWhile_append_returns (cs : List Char) :
    dropEndWhile isReturn cs ++ List.replicate (returns cs) '\r' = cs := by
  have hr : cs.rtakeWhile isReturn = List.replicate (returns cs) '\r' := by
    refine List.eq_replicate_iff.mpr ⟨rfl, fun c hc => ?_⟩
    simpa [isReturn] using List.mem_rtakeWhile_imp hc
  rw [dropEndWhile_eq_rdropWhile, ← hr, List.rdropWhile_append_rtakeWhile]

theorem dropEndWhile_eq_self_iff : dropEndWhile isReturn cs = cs ↔ returns cs = 0 := by
  have h := dropEndWhile_append_returns cs
  constructor
  · intro he
    have hl := congrArg List.length h
    simp only [List.length_append, List.length_replicate, he] at hl
    omega
  · intro h0
    simpa [h0] using h

theorem dropEndWhile_append_return_iff :
    dropEndWhile isReturn cs ++ ['\r'] = cs ↔ returns cs = 1 := by
  have h := dropEndWhile_append_returns cs
  constructor
  · intro he
    have hl := congrArg List.length (he.trans h.symm)
    simp only [List.length_append, List.length_singleton, List.length_replicate] at hl
    omega
  · intro h1
    simpa [h1] using h

theorem getLast?_eq_return_iff : cs.getLast? = some '\r' ↔ returns cs ≠ 0 := by
  rw [returns, Ne, List.length_eq_zero_iff, List.rtakeWhile_eq_nil_iff]
  constructor
  · intro hc hn
    obtain ⟨ds, rfl⟩ := List.getLast?_eq_some_iff.mp hc
    simpa [isReturn] using hn (by simp)
  · intro hn
    push Not at hn
    obtain ⟨hne, hc⟩ := hn
    rw [List.getLast?_eq_some_getLast hne]
    simpa [isReturn] using hc

private theorem dropReturn_concat (cs : List Char) (c : Char) :
    dropReturn (cs ++ [c]) = if isReturn c then cs else cs ++ [c] := by
  induction cs with
  | nil => rfl
  | cons d cs ih =>
    cases cs with
    | nil =>
      simp only [List.cons_append, List.nil_append, dropReturn]
      split <;> rfl
    | cons e cs =>
      simp only [List.cons_append, dropReturn] at ih ⊢
      rw [ih]
      split <;> rfl

theorem mem_of_mem_dropReturn {c : Char} (h : c ∈ dropReturn cs) : c ∈ cs := by
  rcases List.eq_nil_or_concat cs with rfl | ⟨init, d, rfl⟩
  · exact h
  · rw [List.concat_eq_append] at h ⊢
    rw [dropReturn_concat] at h
    split at h
    · exact List.mem_append_left _ h
    · exact h

theorem dropReturn_eq_self (h : cs.getLast? ≠ some '\r') : dropReturn cs = cs := by
  rcases List.eq_nil_or_concat cs with rfl | ⟨init, c, rfl⟩
  · rfl
  · rw [List.concat_eq_append] at h ⊢
    rw [dropReturn_concat, if_neg]
    simpa [isReturn] using h

/-- The rows of a text whose lines are all finished are these lines. -/
theorem rows_join (h : ∀ l ∈ lines, '\n' ∉ l) :
    rows (join ['\n'] lines []) = lines.map dropReturn := by
  rw [rows, pieces_join h (by simp)]
  clear h
  induction lines with
  | nil => rfl
  | cons l lines ih =>
    cases lines with
    | nil => rfl
    | cons l' lines => exact congrArg (dropReturn l :: ·) ih

private theorem mem_endedRows {ps : List (List Char)} {row : List Char} (h : row ∈ endedRows ps) :
    ∃ p ∈ ps, row = p ∨ row = dropReturn p := by
  induction ps with
  | nil => cases h
  | cons p ps ih =>
    cases ps with
    | nil =>
      rw [endedRows] at h
      split at h
      · cases h
      · exact ⟨p, by simp, .inl (List.mem_singleton.mp h)⟩
    | cons q ps =>
      rcases List.mem_cons.mp h with rfl | h
      · exact ⟨p, by simp, .inr rfl⟩
      · obtain ⟨p', hp, hr⟩ := ih h
        exact ⟨p', List.mem_cons_of_mem p hp, hr⟩

theorem newline_notMem_of_mem_rows {row : List Char} (h : row ∈ rows cs) : '\n' ∉ row := by
  obtain ⟨lines, last, hp, _, hlines, hlast⟩ := exists_join '\n' cs
  obtain ⟨p, hm, hr⟩ := mem_endedRows h
  have hpiece : '\n' ∉ p := by
    rw [hp] at hm
    rcases List.mem_append.mp hm with hm | hm
    · exact hlines p hm
    · exact List.mem_singleton.mp hm ▸ hlast
  rcases hr with rfl | rfl
  · exact hpiece
  · exact fun hn => hpiece (mem_of_mem_dropReturn hn)

/-- Dropping one carriage return before all of them makes no difference. -/
theorem dropEndWhile_dropReturn (cs : List Char) :
    dropEndWhile isReturn (dropReturn cs) = dropEndWhile isReturn cs := by
  simp only [dropEndWhile_eq_rdropWhile]
  induction cs using List.reverseRecOn with
  | nil => rfl
  | append_singleton cs c _ =>
    rw [dropReturn_concat, List.rdropWhile_concat]
    by_cases hc : isReturn c = true
    · rw [if_pos hc, if_pos hc]
    · rw [if_neg hc, if_neg hc, List.rdropWhile_concat, if_neg hc]

/-- Nothing is left of a carriage return that stands at the end and nowhere else. -/
theorem notMem_dropReturn (h : ∀ a b, cs = a ++ '\r' :: b → b = []) : '\r' ∉ dropReturn cs := by
  intro hr
  rcases List.eq_nil_or_concat cs with rfl | ⟨init, c, rfl⟩
  · simp [dropReturn] at hr
  · rw [List.concat_eq_append] at hr h
    rw [dropReturn_concat] at hr
    split at hr
    · obtain ⟨a, b, rfl⟩ := List.append_of_mem hr
      have hb := h a (b ++ [c]) (by simp)
      simp at hb
    · rename_i hc
      obtain ⟨a, b, he⟩ := List.append_of_mem hr
      have hb := h a b he
      subst hb
      have hl := congrArg List.getLast? he
      simp only [List.getLast?_concat, Option.some.injEq] at hl
      exact hc (by simp [isReturn, hl])

end YamlOutline.Text
