import YamlOutline.Proofs.Buffer.Typing

/-! Line endings that were put back once are put back the same again: the text that was saved tells
the line ending as well as the text before it, or it has no line ending to tell. -/

namespace YamlOutline
open Text (join pieces returns dropEndWhile isReturn)
open matchLineEndings (hasCrLf)
variable {last : List Char} {lines : List (List Char)}

/-- No line of the text ends in a carriage return, the unfinished last line included. -/
def Bare (text : String) : Prop :=
  ∀ l ∈ pieces '\n' text.toList, returns l = 0

theorem Text.returns_dropEndWhile (cs : List Char) : returns (dropEndWhile isReturn cs) = 0 := by
  refine Text.dropEndWhile_eq_self_iff.mp ?_
  simp only [Text.dropEndWhile_eq_rdropWhile, List.rdropWhile_idempotent]

/-- The rows of a buffer are the lines of its text. -/
theorem Buffer.Lacks.text_bare {b : Buffer} (h : b.Lacks '\n') : Bare b.text := by
  have hrow : ∀ row ∈ b.rows.map (dropEndWhile isReturn), '\n' ∉ row := notMem_map_dropEndWhile h
  have hbare : ∀ row ∈ b.rows.map (dropEndWhile isReturn), returns row = 0 := by
    intro row hm
    obtain ⟨l, _, rfl⟩ := List.mem_map.mp hm
    exact Text.returns_dropEndWhile l
  intro l hm
  rw [Buffer.text, String.toList_ofList] at hm
  rcases List.eq_nil_or_concat (b.rows.map (dropEndWhile isReturn)) with he | ⟨init, last, he⟩
  · rw [he] at hm
    obtain rfl : l = [] := by simpa [pieces] using hm
    rfl
  · rw [he] at hm hrow hbare
    rw [List.concat_eq_append] at hm hrow hbare
    rw [Text.intercalate_concat, Text.pieces_join (fun r hr => hrow r (by simp [hr]))
      (hrow last (by simp))] at hm
    exact hbare l hm

/-- A text joined by a line ending tells that line ending, if it has a finished line. -/
private theorem endingOf_join (h : ∀ l ∈ lines, '\n' ∉ l) (hl : '\n' ∉ last)
    (hr : ∀ l ∈ lines, returns l = 0) (hne : lines ≠ []) (cs : List Char) :
    endingOf (join (endingOf cs) lines last) = endingOf cs := by
  obtain ⟨l, ls, rfl⟩ := List.exists_cons_of_ne_nil hne
  rw [endingOf, endingOf]
  cases hasCrLf cs with
  | true =>
    have ht : hasCrLf (join ['\r', '\n'] (l :: ls) last) = true := by
      rw [Text.join_cons, List.append_assoc]
      exact hasCrLf_append l _
    rw [if_pos rfl, if_pos ht]
  | false =>
    have hf : ¬ hasCrLf (join ['\n'] (l :: ls) last) = true := by
      rw [hasCrLf_join h hl]
      rintro ⟨k, hk, hn⟩
      exact hn (hr k hk)
    rw [if_neg Bool.false_ne_true, if_neg hf]

/-- Putting a text in the place of what it became there changes nothing any more. -/
theorem matchLineEndings_again {text : String} (ht : Bare text) (former : String) :
    matchLineEndings text (matchLineEndings text former) = matchLineEndings text former := by
  obtain ⟨lines, last, hp, he, h, hl⟩ := Text.exists_join '\n' text.toList
  have hr : ∀ l ∈ lines, returns l = 0 := fun l hm => ht l (by rw [hp]; simp [hm])
  have hrlast : returns last = 0 := ht last (by rw [hp]; simp)
  have hbody : withEnding (endingOf former.toList) text.toList =
      join (endingOf former.toList) lines last := by
    rw [he]
    exact withEnding_join _ h hl
  have hf := matchLineEndings_eq hbody
  by_cases hc : (former.toList.getLast? = some '\n' &&
      (join (endingOf former.toList) lines last).getLast? != some '\n') = true
  · -- A line ending was added at the end, and it will be added again.
    rw [if_pos hc] at hf
    have hlast : join (endingOf former.toList) lines last ++ endingOf former.toList =
        join (endingOf former.toList) (lines ++ [last]) [] := by simp [join]
    have hend : endingOf (matchLineEndings text former).toList = endingOf former.toList := by
      rw [hf, String.toList_ofList, hlast]
      refine endingOf_join ?_ (by simp) ?_ (by simp) _
      · simpa [or_imp, forall_and] using ⟨h, hl⟩
      · simpa [or_imp, forall_and] using ⟨hr, hrlast⟩
    have hgot : (matchLineEndings text former).toList.getLast? = some '\n' := by
      rw [hf, String.toList_ofList, List.getLast?_append, endingOf_getLast?]
      rfl
    rw [← hend] at hbody
    rw [matchLineEndings_eq hbody, hend, hgot]
    simp only [Bool.and_eq_true] at hc
    rw [if_pos (by simpa using hc.2)]
    exact hf.symm
  · rw [if_neg hc] at hf
    have hsame : withEnding (endingOf (matchLineEndings text former).toList) text.toList =
        join (endingOf former.toList) lines last := by
      cases hls : lines with
      | nil =>
        -- Without a newline there is no line ending to put back.
        rw [withEnding_of_notMem]
        · rw [he, hls, Text.join_nil, Text.join_nil]
        · rw [he, hls, Text.join_nil]
          exact hl
      | cons l ls =>
        rw [← hls, hf, String.toList_ofList, endingOf_join h hl hr (by simp [hls])]
        exact hbody
    have hn : ¬ ((matchLineEndings text former).toList.getLast? = some '\n' &&
        (join (endingOf former.toList) lines last).getLast? != some '\n') = true := by
      rw [hf, String.toList_ofList]
      simp
    rw [matchLineEndings_eq hsame, if_neg hn]
    exact hf.symm

end YamlOutline
