import YamlOutline.Proofs.Summary.Printing
import YamlOutline.Summary.Align

/-! Aligned summaries that are printed and aligned again. Alignment keeps labels and nothing else of
a line but its kind, and it leaves the kinds that it gave alone, so the second time nothing changes. -/

namespace YamlOutline.Summary

mutual
/-- Every label of an aligned line is the label of that line or of one below it. -/
private theorem label_of_mem_alignEntry (source : String) (scope : Option Node) (depth : Nat) :
    (e : Entry) → ∀ l ∈ (entryOf depth (alignEntry source scope e)).lines,
      ∃ l' ∈ e.lines, l'.label = l.label
  | ⟨line, children⟩, l, h => by
    simp only [alignEntry, entryOf, Entry.lines, List.mem_cons] at h
    rcases h with rfl | h
    · exact ⟨line, List.mem_cons_self, rfl⟩
    · split at h
      · obtain ⟨l', hl', he⟩ := label_of_mem_alignEntries source _ (depth + 1) children l h
        exact ⟨l', List.mem_cons_of_mem line hl', he⟩
      · cases h

private theorem label_of_mem_alignEntries (source : String) (scope : Option Node) (depth : Nat) :
    (es : List Entry) → ∀ l ∈ linesIn (entriesOf depth (alignEntries source scope es)),
      ∃ l' ∈ linesIn es, l'.label = l.label
  | [], _, h => nomatch h
  | e :: es, l, h => by
    rw [alignEntries, entriesOf, linesIn, List.mem_append] at h
    rcases h with h | h
    · obtain ⟨l', hl', he⟩ := label_of_mem_alignEntry source scope depth e l h
      exact ⟨l', List.mem_append_left _ hl', he⟩
    · obtain ⟨l', hl', he⟩ := label_of_mem_alignEntries source scope depth es l h
      exact ⟨l', List.mem_append_right _ hl', he⟩
end

mutual
/-- An aligned line is aligned with what it was aligned with before. -/
private theorem alignEntry_entryOf (source : String) (scope : Option Node) (depth : Nat) :
    (e : Entry) →
    alignEntry source scope (entryOf depth (alignEntry source scope e)) = alignEntry source scope e
  | ⟨line, children⟩ => by
    have hbelow :=
      alignEntries_entriesOf source (resolve line.label scope source).node? (depth + 1) children
    simp only [alignEntry, entryOf]
    generalize (resolve line.label scope source).node? = target at hbelow ⊢
    cases target with
    | none => simp
    | some n =>
      simp only [Option.isSome_some, if_true, hbelow]
      -- A line with a marker for children keeps it only if there are any, then and now.
      cases line.kind <;> cases alignEntries source (some n) children <;> rfl

private theorem alignEntries_entriesOf (source : String) (scope : Option Node) (depth : Nat) :
    (es : List Entry) →
    alignEntries source scope (entriesOf depth (alignEntries source scope es)) =
      alignEntries source scope es
  | [] => rfl
  | e :: es => by
    rw [alignEntries, entriesOf, alignEntries, alignEntry_entryOf source scope depth e,
      alignEntries_entriesOf source scope depth es]
end

/-- Printing an aligned summary and aligning what was printed with the same document changes
nothing: labels, kinds, spans and children are the same, whatever the summary looked like. -/
theorem align_parse_render (summary : String) (root : Option Node) (source : String) :
    align (parse (Outline.render (align (parse summary) root source))) root source =
      align (parse summary) root source := by
  have hprint : ∀ l ∈ linesIn (entriesOf 0 (align (parse summary) root source)),
      Printable l.label := by
    intro l hl
    obtain ⟨l', hl', he⟩ := label_of_mem_alignEntries source root 0 (parse summary) l hl
    exact he ▸ printable_of_mem_parse hl'
  rw [parse_render_iff.mpr hprint]
  exact alignEntries_entriesOf source root 0 (parse summary)

end YamlOutline.Summary
