import YamlOutline.Proofs.Buffer.LineEndings

/-! Carriage returns and keys. A document whose newlines all come with a carriage return, and whose
carriage returns all come with a newline, is loaded without any, and no key brings one in but the
carriage return itself. So what is put back is all there is. -/

namespace YamlOutline
open Text (join pieces dropEndWhile dropReturn isReturn)
open matchLineEndings (hasCrLf)

/-- Every carriage return stands right before a newline, and every newline right after a carriage
return. -/
def Text.Paired (cs : List Char) : Prop :=
  ∀ pre c post, cs = pre ++ c :: post →
    (c = '\r' → post.head? = some '\n') ∧ (c = '\n' → pre.getLast? = some '\r')

namespace Text.Paired
variable {cs : List Char} {c : Char}

theorem nil : Paired [] := by
  intro pre c post he
  simp at he

theorem cons (hr : c ≠ '\r') (hn : c ≠ '\n') (h : Paired cs) : Paired (c :: cs) := by
  intro pre d post he
  cases pre with
  | nil =>
    simp only [List.nil_append, List.cons.injEq] at he
    obtain ⟨rfl, rfl⟩ := he
    exact ⟨fun hd => absurd hd hr, fun hd => absurd hd hn⟩
  | cons p pre =>
    simp only [List.cons_append, List.cons.injEq] at he
    obtain ⟨rfl, he⟩ := he
    obtain ⟨hd, hd'⟩ := h pre d post he
    exact ⟨hd, fun hc => by simp [List.getLast?_cons, hd' hc]⟩

theorem crLf (h : Paired cs) : Paired ('\r' :: '\n' :: cs) := by
  intro pre d post he
  match pre with
  | [] =>
    simp only [List.nil_append, List.cons.injEq] at he
    obtain ⟨rfl, rfl⟩ := he
    exact ⟨fun _ => rfl, fun hd => absurd hd (by decide)⟩
  | [p] =>
    simp only [List.cons_append, List.nil_append, List.cons.injEq] at he
    obtain ⟨rfl, rfl, rfl⟩ := he
    exact ⟨fun hd => absurd hd (by decide), fun _ => rfl⟩
  | p :: q :: pre =>
    simp only [List.cons_append, List.cons.injEq] at he
    obtain ⟨rfl, rfl, he⟩ := he
    obtain ⟨hd, hd'⟩ := h pre d post he
    exact ⟨hd, fun hc => by simp [List.getLast?_cons, hd' hc]⟩

/-- Writing every newline with a carriage return pairs a text that has none of its own. -/
private theorem withEnding (h : '\r' ∉ cs) : Paired (withEnding ['\r', '\n'] cs) := by
  induction cs with
  | nil => exact nil
  | cons c cs ih =>
    have hcs := ih fun hm => h (List.mem_cons_of_mem c hm)
    rw [YamlOutline.withEnding, List.flatMap_cons]
    by_cases hc : c = '\n'
    · rw [if_pos hc]
      exact hcs.crLf
    · rw [if_neg hc]
      exact hcs.cons (fun hr => h (by simp [hr])) hc

private theorem hasCrLf (h : Paired cs) (hn : '\n' ∈ cs) : hasCrLf cs = true := by
  obtain ⟨pre, post, rfl⟩ := List.append_of_mem hn
  obtain ⟨init, rfl⟩ := List.getLast?_eq_some_iff.mp ((h pre '\n' post rfl).2 rfl)
  rw [List.append_assoc]
  exact hasCrLf_append init post

end Text.Paired

namespace Buffer

/-- No row has the character in it. -/
def Lacks (c : Char) (b : Buffer) : Prop :=
  ∀ row ∈ b.rows, c ∉ row

/-- No row has a carriage return in it. -/
def NoReturn (b : Buffer) : Prop :=
  b.Lacks '\r'

variable {b : Buffer} {c : Char}

private theorem Lacks.getD (h : b.Lacks c) (i : Nat) : c ∉ b.rows[i]?.getD [] := by
  cases hi : b.rows[i]? with
  | none => simp
  | some row => exact h row (List.mem_of_getElem? hi)

private theorem Lacks.insert (h : b.Lacks c) {d : Char} (hd : d ≠ c) : (b.insert d).Lacks c := by
  intro row hm
  have hrow : c ∉ b.currentRow := h.getD b.row
  rcases List.mem_or_eq_of_mem_set hm with hm | rfl
  · exact h row hm
  · intro hr
    rcases List.mem_append.mp hr with hr | hr
    · exact hrow (List.mem_of_mem_take hr)
    · rcases List.mem_cons.mp hr with hr | hr
      · exact hd hr.symm
      · exact hrow (List.mem_of_mem_drop hr)

private theorem Lacks.breakRow (h : b.Lacks c) : b.breakRow.Lacks c := by
  intro row hm
  have hrow : c ∉ b.currentRow := h.getD b.row
  simp only [Buffer.breakRow, List.mem_append, List.mem_cons, List.not_mem_nil, or_false] at hm
  rcases hm with (hm | rfl | rfl) | hm
  · exact h row (List.mem_of_mem_take hm)
  · exact fun hr => hrow (List.mem_of_mem_take hr)
  · exact fun hr => hrow (List.mem_of_mem_drop hr)
  · exact h row (List.mem_of_mem_drop hm)

/-- Joining two rows brings nothing in. -/
private theorem Lacks.deleteBack (h : b.Lacks c) : b.deleteBack.Lacks c := by
  have hrow : c ∉ b.currentRow := h.getD b.row
  unfold Buffer.deleteBack
  intro row hm
  simp only at hm
  split at hm
  · rcases List.mem_or_eq_of_mem_set hm with hm | rfl
    · exact h row hm
    · exact fun hr => hrow (List.mem_of_mem_eraseIdx hr)
  · split at hm
    · simp only [List.mem_append, List.mem_cons, List.not_mem_nil, or_false] at hm
      rcases hm with (hm | rfl) | hm
      · exact h row (List.mem_of_mem_take hm)
      · exact fun hr => (List.mem_append.mp hr).elim (h.getD (b.row - 1)) hrow
      · exact h row (List.mem_of_mem_drop hm)
    · exact h row hm

private theorem moveRight_rows (b : Buffer) : b.moveRight.rows = b.rows := by
  unfold moveRight
  split <;> rfl

private theorem moveDown_rows (b : Buffer) : b.moveDown.rows = b.rows := by
  unfold moveDown
  split <;> rfl

/-- What a key can do to the rows: nothing, or insert a character, break a row, or delete back. -/
private theorem press_cases (b : Buffer) (key : Key) :
    (b.press key).rows = b.rows ∨
      (∃ c, b.press key = b.insert c ∧ (key = .char c ∨ c = '\t')) ∨
        b.press key = b.breakRow ∨ b.press key = b.deleteBack := by
  unfold press
  split
  case h_3 | h_4 | h_18 => exact .inl b.moveRight_rows
  case h_7 | h_8 | h_20 => exact .inl b.moveDown_rows
  case h_10 => exact .inl b.startInsert.moveRight_rows
  case h_12 c _ => exact .inr (.inl ⟨c, rfl, .inl rfl⟩)
  case h_13 => exact .inr (.inl ⟨'\t', rfl, .inr rfl⟩)
  case h_14 => exact .inr (.inr (.inl rfl))
  case h_15 => exact .inr (.inr (.inr rfl))
  all_goals exact .inl rfl

/-- The step lemma: no key brings a character in but that character itself, and the tab. -/
theorem Lacks.press (h : b.Lacks c) (ht : c ≠ '\t') {key : Key} (hk : key ≠ .char c) :
    (b.press key).Lacks c := by
  rcases b.press_cases key with he | ⟨d, he, hd⟩ | he | he
  · intro row hm
    exact h row (he ▸ hm)
  · rw [he]
    refine h.insert ?_
    rintro rfl
    exact hd.elim hk ht
  · rw [he]
    exact h.breakRow
  · rw [he]
    exact h.deleteBack

theorem NoReturn.foldl_press (h : b.NoReturn) {keys : List Key} (hk : .char '\r' ∉ keys) :
    (keys.foldl Buffer.press b).NoReturn := by
  induction keys generalizing b with
  | nil => exact h
  | cons key keys ih =>
    have hp : (b.press key).NoReturn :=
      Lacks.press h (by decide) fun he => hk (by simp [he])
    exact ih hp fun hm => hk (List.mem_cons_of_mem key hm)

/-- A paired text is loaded without its carriage returns. -/
theorem NoReturn.ofText {text : String} (hp : Text.Paired text.toList) : (ofText text).NoReturn := by
  obtain ⟨lines, last, hl, he, h, hlast⟩ := Text.exists_join '\n' text.toList
  rw [he] at hp
  -- The newline that follows a carriage return is in no piece, so the carriage return is the last
  -- character of a finished line.
  have hend : '\r' ∉ last := by
    intro hr
    obtain ⟨a, b, rfl⟩ := List.append_of_mem hr
    have hb := (hp (lines.flatMap (· ++ ['\n']) ++ a) '\r' b (by simp [join])).1 rfl
    exact hlast (by simp [List.mem_of_head? hb])
  have hline : ∀ l ∈ lines, '\r' ∉ dropReturn l := by
    intro l hm
    obtain ⟨i, j, rfl⟩ := List.append_of_mem hm
    refine Text.notMem_dropReturn fun a b hl => ?_
    have hb := (hp (i.flatMap (· ++ ['\n']) ++ a) '\r' (b ++ '\n' :: join ['\n'] j last)
      (by simp [join, hl])).1 rfl
    cases b with
    | nil => rfl
    | cons c b =>
      have hc : c = '\n' := by simpa using hb
      exact absurd (by simp [hl, hc]) (h l hm)
  intro row hm
  simp only [Buffer.ofText, hl, List.dropLast_concat, List.getLast?_concat, Option.toList_some,
    List.mem_append, List.mem_map, List.mem_singleton] at hm
  rcases hm with ⟨l, hm, rfl⟩ | rfl
  · exact hline l hm
  · exact hend

/-- A text is loaded row by row, so that no row has a newline in it. -/
theorem Lacks.ofText (text : String) : (ofText text).Lacks '\n' := by
  obtain ⟨lines, last, hl, _, h, hlast⟩ := Text.exists_join '\n' text.toList
  intro row hm
  simp only [Buffer.ofText, hl, List.dropLast_concat, List.getLast?_concat, Option.toList_some,
    List.mem_append, List.mem_map, List.mem_singleton] at hm
  rcases hm with ⟨l, hm, rfl⟩ | rfl
  · exact fun hn => h l hm (Text.mem_of_mem_dropReturn hn)
  · exact hlast

/-- The text of a buffer has no carriage return that is not in a row. -/
theorem NoReturn.text (h : b.NoReturn) : '\r' ∉ b.text.toList := by
  have hrow : ∀ row ∈ b.rows.map (dropEndWhile isReturn), '\r' ∉ row := notMem_map_dropEndWhile h
  rw [Buffer.text, String.toList_ofList]
  rcases List.eq_nil_or_concat (b.rows.map (dropEndWhile isReturn)) with he | ⟨init, last, he⟩
  · simp [he]
  · rw [he] at hrow ⊢
    rw [List.concat_eq_append, Text.intercalate_concat]
    simp only [join, List.mem_append, List.mem_flatMap, not_or, not_exists, not_and]
    refine ⟨fun row hm => ⟨hrow row (by simp [hm]), by decide⟩, hrow last (by simp)⟩

end Buffer

variable {text former : String}

/-- What is put in place of a paired text with a newline is paired, if it has no carriage return
of its own. -/
theorem matchLineEndings_paired (hp : Text.Paired former.toList) (hn : '\n' ∈ former.toList)
    (ht : '\r' ∉ text.toList) : Text.Paired (matchLineEndings text former).toList := by
  have hending : endingOf former.toList = ['\r', '\n'] := by rw [endingOf, if_pos (hp.hasCrLf hn)]
  rw [matchLineEndings_eq rfl, hending]
  split
  · have hc : '\r' ∉ text.toList ++ ['\n'] := by simp [ht]
    have hpc := Text.Paired.withEnding hc
    rw [withEnding_append] at hpc
    rw [String.toList_ofList]
    exact hpc
  · rw [String.toList_ofList]
    exact Text.Paired.withEnding ht

/-- In place of a text without a newline a text is put as it is. -/
theorem matchLineEndings_of_notMem (hn : '\n' ∉ former.toList) :
    matchLineEndings text former = text := by
  have hending : endingOf former.toList = ['\n'] := by
    rw [endingOf, hasCrLf_of_notMem hn, if_neg Bool.false_ne_true]
  have hlast : former.toList.getLast? ≠ some '\n' := fun he => hn (List.mem_of_getLast? he)
  rw [matchLineEndings_eq rfl, hending, withEnding_newline]
  simp [hlast]

end YamlOutline
