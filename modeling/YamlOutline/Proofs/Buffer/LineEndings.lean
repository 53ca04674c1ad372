import YamlOutline.Buffer
import YamlOutline.Proofs.Document.Lines

/-! What becomes of line endings when a text goes through the buffer. The buffer has none; a single
line ending, chosen by looking at the whole former text, is put back between all lines. -/

namespace YamlOutline
open Text (join pieces returns dropEndWhile isReturn)
open matchLineEndings (hasCrLf)

/-- Every line of the text ends alike: all in a newline, or all in a carriage return and a newline,
with no further carriage return before it. The unfinished last line ends in no carriage return. -/
def EndsAlike (text : String) : Prop :=
  ((∀ l ∈ (pieces '\n' text.toList).dropLast, returns l = 0) ∨
      ∀ l ∈ (pieces '\n' text.toList).dropLast, returns l = 1) ∧
    ∀ l ∈ (pieces '\n' text.toList).getLast?, returns l = 0

instance (text : String) : Decidable (EndsAlike text) :=
  inferInstanceAs (Decidable (_ ∧ _))

/-- The line ending that is put back for a former text. -/
def endingOf (cs : List Char) : List Char :=
  if hasCrLf cs then ['\r', '\n'] else ['\n']

/-- The text with another line ending in place of every newline. -/
def withEnding (ending cs : List Char) : List Char :=
  cs.flatMap fun c => if c = '\n' then ending else [c]

variable {cs last : List Char} {lines : List (List Char)}

theorem matchLineEndings_eq {text former : String} {body : List Char}
    (hb : withEnding (endingOf former.toList) text.toList = body) :
    matchLineEndings text former =
      if former.toList.getLast? = some '\n' && body.getLast? != some '\n' then
        .ofList (body ++ endingOf former.toList)
      else .ofList body := by
  subst hb
  rfl

theorem withEnding_append (ending cs ds : List Char) :
    withEnding ending (cs ++ ds) = withEnding ending cs ++ withEnding ending ds :=
  List.flatMap_append

theorem withEnding_of_notMem (ending : List Char) (h : '\n' ∉ cs) : withEnding ending cs = cs := by
  induction cs with
  | nil => rfl
  | cons c cs ih =>
    have hc : c ≠ '\n' := fun he => h (by simp [he])
    have hcs := ih fun hm => h (List.mem_cons_of_mem c hm)
    rw [withEnding, List.flatMap_cons, if_neg hc, ← withEnding, hcs, List.singleton_append]

theorem withEnding_newline (cs : List Char) : withEnding ['\n'] cs = cs := by
  have hid : (fun c : Char => if c = '\n' then ['\n'] else [c]) = fun c => [c] := by
    funext c
    split
    · rename_i hc
      rw [hc]
    · rfl
  rw [withEnding, hid, List.flatMap_singleton']

/-- Another line ending turns one join into another. -/
theorem withEnding_join (ending : List Char) (h : ∀ l ∈ lines, '\n' ∉ l) (hl : '\n' ∉ last) :
    withEnding ending (join ['\n'] lines last) = join ending lines last := by
  induction lines with
  | nil => exact withEnding_of_notMem ending hl
  | cons l lines ih =>
    obtain ⟨hl', hn⟩ := List.forall_mem_cons.mp h
    have he : withEnding ending ['\n'] = ending := by simp [withEnding]
    rw [Text.join_cons, withEnding_append, withEnding_append, ih hn, withEnding_of_notMem ending hl',
      he, Text.join_cons]

theorem hasCrLf_cons (c : Char) (cs : List Char) :
    hasCrLf (c :: cs) = (decide (c = '\r' ∧ cs.head? = some '\n') || hasCrLf cs) := by
  cases cs with
  | nil => simp [hasCrLf]
  | cons d cs =>
    by_cases h : c = '\r' ∧ d = '\n'
    · obtain ⟨rfl, rfl⟩ := h
      simp [hasCrLf]
    · rw [hasCrLf]
      · simp [h]
      · rintro _ rfl he
        cases he
        exact h ⟨rfl, rfl⟩

theorem hasCrLf_append (pre post : List Char) : hasCrLf (pre ++ '\r' :: '\n' :: post) = true := by
  induction pre with
  | nil => rfl
  | cons c pre ih =>
    rw [List.cons_append, hasCrLf_cons, ih, Bool.or_true]

theorem hasCrLf_of_notMem (h : '\n' ∉ cs) : hasCrLf cs = false := by
  induction cs with
  | nil => rfl
  | cons c cs ih =>
    have hcs : '\n' ∉ cs := fun hm => h (List.mem_cons_of_mem c hm)
    have hh : cs.head? ≠ some '\n' := fun he => hcs (List.mem_of_head? he)
    simp [hasCrLf_cons, ih hcs, hh]

private theorem hasCrLf_append_newline (l cs : List Char) (h : '\n' ∉ l) :
    hasCrLf (l ++ '\n' :: cs) = (decide (l.getLast? = some '\r') || hasCrLf cs) := by
  induction l with
  | nil => simp [hasCrLf_cons]
  | cons c l ih =>
    have hl : '\n' ∉ l := fun hm => h (List.mem_cons_of_mem c hm)
    rw [List.cons_append, hasCrLf_cons, ih hl]
    cases l with
    | nil => simp
    | cons d l =>
      have hd : d ≠ '\n' := fun he => hl (by simp [he])
      simp [hd]

/-- The carriage return is put back exactly if some finished line ends in one. -/
theorem hasCrLf_join (h : ∀ l ∈ lines, '\n' ∉ l) (hl : '\n' ∉ last) :
    hasCrLf (join ['\n'] lines last) = true ↔ ∃ l ∈ lines, returns l ≠ 0 := by
  induction lines with
  | nil => simp [hasCrLf_of_notMem hl]
  | cons l lines ih =>
    obtain ⟨hl', hn⟩ := List.forall_mem_cons.mp h
    rw [Text.join_cons, List.append_assoc, List.singleton_append,
      hasCrLf_append_newline _ _ hl']
    simp [ih hn, Text.getLast?_eq_return_iff]

/-- The text of a buffer just loaded is the lines without the carriage returns at their ends. -/
private theorem Buffer.text_ofText {text : String}
    (hp : pieces '\n' text.toList = lines ++ [last]) :
    (ofText text).text =
      .ofList (join ['\n'] (lines.map (dropEndWhile isReturn)) (dropEndWhile isReturn last)) := by
  have hd : lines.map (dropEndWhile isReturn ∘ Text.dropReturn) = lines.map (dropEndWhile isReturn) :=
    List.map_congr_left fun l _ => Text.dropEndWhile_dropReturn l
  simp [Buffer.text, ofText, hp, hd, ← Text.intercalate_concat]

/-- The rows of a buffer just loaded are the lines of the document. -/
theorem Buffer.rows_ofText (d : Document) :
    (ofText d.text).rows.map (fun row => .ofList (dropEndWhile isReturn row)) =
      (List.range d.lineCount).map d.line := by
  obtain ⟨lines, last, hp, _⟩ := Text.exists_join '\n' d.text.toList
  have hrows : (ofText d.text).rows.map (fun row => String.ofList (dropEndWhile isReturn row)) =
      (lines ++ [last]).map fun row => .ofList (dropEndWhile isReturn row) := by
    simp [ofText, hp, Text.dropEndWhile_dropReturn]
  rw [hrows, ← hp]
  refine List.ext_getElem (by simp [Document.lineCount_eq_length]) fun i hi _ => ?_
  have hi' : i < (pieces '\n' d.text.toList).length := by simpa using hi
  simp [Document.line_eq, hi']

/-- It makes no difference to the text whether loading keeps the carriage returns. -/
theorem Buffer.text_ofText_eq (text : String) :
    (ofText text).text = ({ rows := pieces '\n' text.toList } : Buffer).text := by
  obtain ⟨lines, last, hp, _⟩ := Text.exists_join '\n' text.toList
  rw [text_ofText hp]
  simp [Buffer.text, hp, ← Text.intercalate_concat]

theorem notMem_dropEndWhile {c : Char} (h : c ∉ cs) : c ∉ dropEndWhile isReturn cs := by
  rw [Text.dropEndWhile_eq_rdropWhile]
  exact fun hm => h ((List.rdropWhile_prefix ..).subset hm)

theorem notMem_map_dropEndWhile {c : Char} (h : ∀ l ∈ lines, c ∉ l) :
    ∀ l ∈ lines.map (dropEndWhile isReturn), c ∉ l := by
  intro l hm
  obtain ⟨l', hm', rfl⟩ := List.mem_map.mp hm
  exact notMem_dropEndWhile (h l' hm')

theorem endingOf_getLast? (cs : List Char) : (endingOf cs).getLast? = some '\n' := by
  unfold endingOf
  split <;> rfl

/-- A text that ends in a newline still does with other line endings. -/
private theorem getLast?_join (h : '\n' ∉ last) (hn : (join ['\n'] lines last).getLast? = some '\n')
    (cs : List Char) (f : List Char → List Char) (hf : f [] = []) :
    (join (endingOf cs) (lines.map f) (f last)).getLast? = some '\n' := by
  have hlast : last = [] := by
    by_contra hne
    rw [join, List.getLast?_append, List.getLast?_eq_some_getLast hne] at hn
    exact h (Option.some.inj hn ▸ List.getLast_mem hne)
  subst hlast
  rcases List.eq_nil_or_concat lines with rfl | ⟨init, l, rfl⟩
  · simp at hn
  · simp [join, hf, endingOf_getLast?]

/-- A buffer that was not edited gives back every line with the one line ending. -/
private theorem matchLineEndings_text_ofText {text : String}
    (hp : pieces '\n' text.toList = lines ++ [last])
    (he : text.toList = join ['\n'] lines last) (h : ∀ l ∈ lines, '\n' ∉ l) (hl : '\n' ∉ last) :
    matchLineEndings (Buffer.ofText text).text text =
      .ofList (join (endingOf text.toList) (lines.map (dropEndWhile isReturn))
        (dropEndWhile isReturn last)) := by
  have hb : withEnding (endingOf text.toList) (Buffer.ofText text).text.toList =
      join (endingOf text.toList) (lines.map (dropEndWhile isReturn)) (dropEndWhile isReturn last) := by
    rw [Buffer.text_ofText hp, String.toList_ofList]
    exact withEnding_join _ (notMem_map_dropEndWhile h) (notMem_dropEndWhile hl)
  have hn : ¬ (text.toList.getLast? = some '\n' &&
      (join (endingOf text.toList) (lines.map (dropEndWhile isReturn))
        (dropEndWhile isReturn last)).getLast? != some '\n') = true := by
    intro hc
    simp only [Bool.and_eq_true, decide_eq_true_eq, bne_iff_ne] at hc
    exact hc.2 (getLast?_join hl (he ▸ hc.1) _ _ rfl)
  rw [matchLineEndings_eq hb, if_neg hn]

/-- A joined text is the same with each line changed only if no line is. -/
private theorem join_map_eq_iff (h : ∀ l ∈ lines, '\n' ∉ l) (hl : '\n' ∉ last)
    {f g : List Char → List Char} (hf : ∀ l ∈ lines, '\n' ∉ f l) (hg : '\n' ∉ g last) :
    join ['\n'] (lines.map f) (g last) = join ['\n'] lines last ↔
      (∀ l ∈ lines, f l = l) ∧ g last = last := by
  have hmap : lines.map f = lines ↔ ∀ l ∈ lines, f l = l := by
    simpa using List.map_inj_left (l := lines) (f := f) (g := id)
  rw [← hmap]
  constructor
  · exact fun he => Text.join_inj (by simpa using hf) hg h hl he
  · rintro ⟨he, hlast⟩
    rw [he, hlast]

private theorem join_return_newline (lines : List (List Char)) (last : List Char) :
    join ['\r', '\n'] lines last = join ['\n'] (lines.map (· ++ ['\r'])) last := by
  simp [join, List.flatMap_map]

/-- A text goes through the buffer unchanged exactly if its lines end alike. -/
theorem matchLineEndings_text_ofText_iff (text : String) :
    matchLineEndings (Buffer.ofText text).text text = text ↔ EndsAlike text := by
  obtain ⟨lines, last, hp, he, h, hl⟩ := Text.exists_join '\n' text.toList
  have halike : EndsAlike text ↔
      ((∀ l ∈ lines, returns l = 0) ∨ ∀ l ∈ lines, returns l = 1) ∧ returns last = 0 := by
    simp [EndsAlike, hp]
  have hbare : ∀ l ∈ lines, '\n' ∉ dropEndWhile isReturn l :=
    fun l hm => notMem_dropEndWhile (h l hm)
  have hcr := hasCrLf_join h hl
  rw [← he] at hcr
  rw [halike, matchLineEndings_text_ofText hp he h hl, ← String.toList_inj, String.toList_ofList,
    endingOf]
  cases hc : hasCrLf text.toList with
  | false =>
    -- No finished line ends in a carriage return, so only the last one can have lost any.
    have hzero : ∀ l ∈ lines, returns l = 0 := by simpa [hc] using hcr
    rw [if_neg Bool.false_ne_true, he, join_map_eq_iff h hl hbare (notMem_dropEndWhile hl)]
    simp only [Text.dropEndWhile_eq_self_iff]
    exact and_congr_left fun _ => (or_iff_left_of_imp fun _ => hzero).symm
  | true =>
    -- Some finished line ends in a carriage return, so it cannot be that none does.
    obtain ⟨l, hm, hr⟩ := hcr.mp hc
    rw [if_pos rfl, he, join_return_newline, List.map_map, join_map_eq_iff h hl
      (fun l hm => by simpa using hbare l hm) (notMem_dropEndWhile hl)]
    simp only [Function.comp_apply, Text.dropEndWhile_append_return_iff, Text.dropEndWhile_eq_self_iff]
    exact and_congr_left fun _ => (or_iff_right fun h0 => hr (h0 l hm)).symm

end YamlOutline
