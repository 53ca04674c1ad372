import YamlOutline.Proofs.Text.Lines

/-! White space at the ends of a text: what trimming keeps and when it changes nothing. A text put
on one line has none there, and no newline anywhere. -/

namespace YamlOutline.Text
variable {cs : List Char} {c : Char}

theorem trimEnd_eq_rdropWhile (cs : List Char) : trimEnd cs = cs.rdropWhile isBlank :=
  dropEndWhile_eq_rdropWhile isBlank cs

theorem mem_of_mem_trim (h : c ∈ trim cs) : c ∈ cs := by
  rw [trim, trimEnd_eq_rdropWhile] at h
  exact (List.dropWhile_suffix isBlank).mem ((List.rdropWhile_prefix isBlank (trimStart cs)).mem h)

private theorem trimStart_eq_self_iff :
    trimStart cs = cs ↔ ∀ c, cs.head? = some c → isBlank c = false := by
  cases cs with
  | nil => simp [trimStart]
  | cons d cs => simp [trimStart, List.dropWhile_eq_self_iff]

theorem trimEnd_eq_self_iff :
    trimEnd cs = cs ↔ ∀ c, cs.getLast? = some c → isBlank c = false := by
  rw [trimEnd_eq_rdropWhile]
  rcases List.eq_nil_or_concat cs with rfl | ⟨init, d, rfl⟩
  · simp
  · simp [List.rdropWhile_eq_self_iff]

/-- Trimming leaves alone what has no blank at either end. -/
theorem trim_eq_self_iff :
    trim cs = cs ↔ (∀ c, cs.head? = some c → isBlank c = false) ∧
      ∀ c, cs.getLast? = some c → isBlank c = false := by
  rw [← trimStart_eq_self_iff, ← trimEnd_eq_self_iff]
  constructor
  · intro h
    have hs : trimStart cs = cs := by
      refine (List.dropWhile_suffix isBlank).eq_of_length_le ?_
      have hp := (List.rdropWhile_prefix isBlank (trimStart cs)).length_le
      rw [trim, trimEnd_eq_rdropWhile] at h
      rwa [h] at hp
    exact ⟨hs, by rwa [trim, hs] at h⟩
  · rintro ⟨hs, he⟩
    rw [trim, hs, he]

@[simp] theorem trim_trim (cs : List Char) : trim (trim cs) = trim cs := by
  have hs : trimStart (trim cs) = trim cs := by
    rw [trimStart_eq_self_iff]
    intro c hc
    have hp := List.rdropWhile_prefix isBlank (trimStart cs)
    rw [← trimEnd_eq_rdropWhile] at hp
    have hh : (trimStart cs).head? = some c := by
      obtain ⟨r, hr⟩ := hp
      rw [← hr, List.head?_append]
      exact Option.or_eq_some_iff.mpr (.inl hc)
    exact trimStart_eq_self_iff.mp (List.dropWhile_idempotent isBlank cs) c hh
  rw [trim, hs, trim, trimEnd_eq_rdropWhile, trimEnd_eq_rdropWhile]
  exact List.rdropWhile_idempotent isBlank _

theorem trim_cons_of_isBlank (hc : isBlank c = true) (cs : List Char) : trim (c :: cs) = trim cs := by
  rw [trim, trimStart, List.dropWhile_cons_of_pos hc]
  rfl

/-- A rewriting that keeps the characters of a prefix and puts none of them in front of another one
leaves the prefix as it is. -/
private theorem dropWhile_flatMap {p : Char → Bool} {w : Char → List Char}
    (hkept : ∀ c, p c = true → w c = [c])
    (hother : ∀ c, p c = false → ∃ d r, w c = d :: r ∧ p d = false) (s : List Char) :
    (s.flatMap w).dropWhile p = (s.dropWhile p).flatMap w := by
  induction s with
  | nil => rfl
  | cons c s ih =>
    cases hc : p c with
    | true => rw [List.flatMap_cons, hkept c hc, List.singleton_append, List.dropWhile_cons_of_pos hc,
        List.dropWhile_cons_of_pos hc, ih]
    | false =>
      obtain ⟨d, r, hw, hd⟩ := hother c hc
      rw [List.dropWhile_cons_of_neg (by simp [hc]), List.flatMap_cons, hw, List.cons_append,
        List.dropWhile_cons_of_neg (by simp [hd])]

/-- Trimming passes through a rewriting of characters that keeps the blanks and adds none at the ends. -/
theorem trim_flatMap {w : Char → List Char} (hkept : ∀ c, isBlank c = true → w c = [c])
    (hfirst : ∀ c, isBlank c = false → ∃ d r, w c = d :: r ∧ isBlank d = false)
    (hlast : ∀ c, isBlank c = false → ∃ d r, w c = r ++ [d] ∧ isBlank d = false) (s : List Char) :
    trim (s.flatMap w) = (trim s).flatMap w := by
  have hend (s : List Char) : trimEnd (s.flatMap w) = (trimEnd s).flatMap w := by
    have hreverse := dropWhile_flatMap (w := List.reverse ∘ w) (fun c hc => by simp [hkept c hc])
      (fun c hc => by
        obtain ⟨d, r, hw, hd⟩ := hlast c hc
        exact ⟨d, r.reverse, by simp [hw], hd⟩) s.reverse
    rw [trimEnd_eq_rdropWhile, trimEnd_eq_rdropWhile, List.rdropWhile, List.rdropWhile, List.reverse_flatMap,
      hreverse, List.reverse_flatMap]
    congr 1
    funext c
    exact List.reverse_reverse (w c)
  rw [trim, trimStart, dropWhile_flatMap hkept hfirst, hend, trim, trimStart]

/-! ### Texts on one line -/

private theorem newline_notMem_intercalate {ws : List (List Char)} (h : ∀ w ∈ ws, '\n' ∉ w) :
    '\n' ∉ [' '].intercalate ws := by
  rcases List.eq_nil_or_concat ws with rfl | ⟨init, last, rfl⟩
  · simp
  rw [List.concat_eq_append] at h ⊢
  rw [intercalate_concat, join, List.mem_append, List.mem_flatMap]
  rintro (⟨w, hm, hn⟩ | hn)
  · rcases List.mem_append.mp hn with hn | hn
    · exact h w (List.mem_append_left _ hm) hn
    · exact absurd (List.mem_singleton.mp hn) (by decide)
  · exact h last (by simp) hn

/-- Texts with nothing to trim, put in a row, have nothing to trim. -/
private theorem trim_intercalate {ws : List (List Char)} (h : ∀ w ∈ ws, w ≠ [] ∧ trim w = w) :
    trim ([' '].intercalate ws) = [' '].intercalate ws := by
  rcases List.eq_nil_or_concat ws with rfl | ⟨init, last, rfl⟩
  · rfl
  rw [List.concat_eq_append] at h ⊢
  obtain ⟨hne, hlast⟩ := h last (by simp)
  rw [intercalate_concat, trim_eq_self_iff]
  constructor
  · intro c hc
    cases init with
    | nil => exact (trim_eq_self_iff.mp hlast).1 c hc
    | cons w init =>
      obtain ⟨hw, ht⟩ := h w (by simp)
      rw [join_cons, List.append_assoc, List.head?_append_of_ne_nil _ hw] at hc
      exact (trim_eq_self_iff.mp ht).1 c hc
  · intro c hc
    rw [join, List.getLast?_append_of_ne_nil _ hne] at hc
    exact (trim_eq_self_iff.mp hlast).2 c hc

/-- Words are not empty and hold no white space. -/
private theorem of_mem_words : ∀ w ∈ words cs, w ≠ [] ∧ ∀ c ∈ w, isBlank c = false := by
  fun_induction words cs with
  | case1 => nofun
  | case2 c r hc ih => exact ih
  | case3 c hc => simpa using hc
  | case4 c hc d r hd ih => exact List.forall_mem_cons.mpr ⟨by simpa using hc, ih⟩
  | case5 c hc d r hd hn ih => simpa [hn] using hc
  | case6 c hc d r hd w ws hw ih =>
    simp only [hw, List.forall_mem_cons] at ih ⊢
    exact ⟨⟨by simp, by simpa using hc, ih.1.2⟩, ih.2⟩

private theorem words_eq_nil_iff : words cs = [] ↔ ∀ c ∈ cs, isBlank c = true := by
  fun_induction words cs with
  | case1 => simp
  | case2 c r hc ih => simp [hc, ih]
  | case3 c hc => simp [hc]
  | case4 c hc d r hd ih => simp [hc]
  | case5 c hc d r hd hn ih => simp [hn, hc]
  | case6 c hc d r hd w ws hw ih => simp [hw, hc]

theorem singleLine_eq_nil_iff : singleLine cs = [] ↔ ∀ c ∈ cs, isBlank c = true := by
  rw [← words_eq_nil_iff, singleLine]
  rcases List.eq_nil_or_concat (words cs) with hw | ⟨init, last, hw⟩
  · simp [hw]
  · rw [List.concat_eq_append] at hw
    have hm : last ∈ words cs := by simp [hw]
    simp [hw, intercalate_concat, join, (of_mem_words last hm).1]

theorem newline_notMem_singleLine (cs : List Char) : '\n' ∉ singleLine cs :=
  newline_notMem_intercalate fun w hw hn =>
    absurd ((of_mem_words w hw).2 _ hn) (by decide)

@[simp] theorem trim_singleLine (cs : List Char) : trim (singleLine cs) = singleLine cs := by
  refine trim_intercalate fun w hw => ?_
  obtain ⟨hne, hb⟩ := of_mem_words w hw
  exact ⟨hne, trim_eq_self_iff.mpr
    ⟨fun c hc => hb c (List.mem_of_mem_head? hc), fun c hc => hb c (List.mem_of_mem_getLast? hc)⟩⟩

end YamlOutline.Text
