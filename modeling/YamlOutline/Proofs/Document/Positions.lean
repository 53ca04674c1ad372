import Mathlib.Data.Prod.Lex
import YamlOutline.Proofs.Document.Lines

/-! Where the offsets of a document lie. What the index gives for an offset is what counting the newlines
and characters before it gives. -/

namespace YamlOutline

namespace Position

/-- The position behind a text: the newlines in it, and the characters behind the last of them. -/
def behind (cs : List Char) : Position :=
  ⟨cs.count '\n', (cs.rtakeWhile (· != '\n')).length⟩

/-- Positions in the order of the text: by line, and on one line by column. -/
def key (p : Position) : Nat ×ₗ Nat :=
  toLex (p.line, p.column)

private theorem key_behind_lt (cs : List Char) {more : List Char} (h : more ≠ []) :
    (behind cs).key < (behind (cs ++ more)).key := by
  rw [key, key, Prod.Lex.toLex_lt_toLex]
  by_cases hn : '\n' ∈ more
  · -- A newline more: a later line.
    have hpos := List.count_pos_iff.mpr hn
    exact .inl (by simp [behind, hpos])
  · refine .inr ⟨by simp [behind, List.count_eq_zero_of_not_mem hn], ?_⟩
    have hall : ∀ c ∈ more.reverse, (c != '\n') = true := by
      simp only [List.mem_reverse, bne_iff_ne]
      rintro c hc rfl
      exact hn hc
    have hlength := List.length_pos_iff.mpr h
    simp only [behind, List.rtakeWhile, List.reverse_append, List.takeWhile_append_of_pos hall,
      List.length_reverse, List.length_append]
    omega

end Position

namespace Document
open Text (IsBoundary size slice?)
variable {d : Document} {offset m n : Nat} {before after : List Char}

private theorem clampOffset_isGreatest (d : Document) (offset : Nat) :
    IsGreatest {n | IsBoundary d.text.toList n ∧ n ≤ offset} (d.clampOffset offset) :=
  Text.clamp_isGreatest _ _

private theorem clampOffset_eq_self (h : IsBoundary d.text.toList offset) :
    d.clampOffset offset = offset :=
  Nat.le_antisymm (d.clampOffset_isGreatest offset).1.2
    ((d.clampOffset_isGreatest offset).2 ⟨h, Nat.le_refl _⟩)

private theorem clampOffset_mono (h : m ≤ n) : d.clampOffset m ≤ d.clampOffset n := by
  obtain ⟨hb, hle⟩ := (d.clampOffset_isGreatest m).1
  exact (d.clampOffset_isGreatest n).2 ⟨hb, Nat.le_trans hle h⟩

/-- The position of an offset is the one behind the text before it. -/
private theorem positionAt?_eq (ht : d.text.toList = before ++ after)
    (hs : size before = d.clampOffset offset) :
    d.positionAt? offset = some (.behind before) := by
  have hpoint : Text.partitionPoint d.lineStarts (d.clampOffset offset) = before.count '\n' + 1 := by
    rw [lineStarts, ht, ← hs, Text.partitionPoint_lineStarts]
  have hstart : d.lineStarts[before.count '\n']? = some (size (before.rdropWhile (· != '\n'))) := by
    rw [lineStarts, ht, Text.getElem?_lineStarts]
  have hslice : slice? d.text.toList (size (before.rdropWhile (· != '\n'))) (d.clampOffset offset) =
      some (before.rtakeWhile (· != '\n')) := by
    rw [ht, ← hs, Text.slice?_lineStarts]
  simp only [positionAt?, hpoint, Nat.add_sub_cancel, hstart, hslice, Option.bind_eq_bind, Option.bind_some,
    Option.pure_def]
  rfl

/-- The text is cut in two at the clamped offset. -/
private theorem exists_cut (d : Document) (offset : Nat) :
    ∃ before after, d.text.toList = before ++ after ∧
    size before = d.clampOffset offset ∧ d.positionAt? offset = some (.behind before) := by
  obtain ⟨before, ⟨after, ht⟩, hs⟩ := (d.clampOffset_isGreatest offset).1.1
  exact ⟨before, after, ht.symm, hs, positionAt?_eq ht.symm hs⟩

/-- The second byte of the character on the second line counts as the first. -/
example : (⟨"a.yaml", "yaml", "a\né"⟩ : Document).positionAt? 3 = some ⟨1, 0⟩ := by decide +kernel

theorem exists_clampOffset (d : Document) (offset : Nat) : ∃ before after,
    d.text.toList = before ++ after ∧ size before = d.clampOffset offset ∧
      (d.lineStartAt offset).line = before.count '\n' := by
  obtain ⟨before, after, ht, hs, hp⟩ := d.exists_cut offset
  refine ⟨before, after, ht, hs, ?_⟩
  rw [lineStartAt, positionAt, hp]
  rfl

theorem lineStartAt_lt (d : Document) (offset : Nat) : (d.lineStartAt offset).line < d.lineCount := by
  obtain ⟨before, after, ht, _, hl⟩ := d.exists_clampOffset offset
  rw [hl, lineCount_eq, ht, List.count_append]
  omega

/-- Of two offsets that are clamped to different ones, the larger lies behind the other. -/
private theorem key_positionAt_lt (h : d.clampOffset m < d.clampOffset n) :
    (d.positionAt m).key < (d.positionAt n).key := by
  obtain ⟨before, mid, after, ht, hm, hn⟩ :=
    (d.clampOffset_isGreatest m).1.1.cut (d.clampOffset_isGreatest n).1.1 (Nat.le_of_lt h)
  have hmid : mid ≠ [] := by
    rintro rfl
    rw [hm, hn] at h
    exact Nat.lt_irrefl _ h
  have ht' : d.text.toList = before ++ (mid ++ after) := by rw [ht, List.append_assoc]
  have hp : d.positionAt? m = some (.behind before) := positionAt?_eq ht' hm.symm
  have hq : d.positionAt? n = some (.behind (before ++ mid)) :=
    positionAt?_eq ht (by rw [Text.size_append, hn])
  rw [positionAt, hp, positionAt, hq]
  exact Position.key_behind_lt before hmid

/-- Offsets and positions. An offset is clamped to the largest boundary of a character that is not beyond
it and not beyond the text. -/
theorem positions_count_newlines_and_characters (d : Document) :
    (∀ offset, IsGreatest
      {n | IsBoundary d.text.toList n ∧ n ≤ offset ∧ n ≤ size d.text.toList} (d.clampOffset offset)) ∧
    (∀ offset, ∃ before after, d.text.toList = before ++ after ∧ size before = d.clampOffset offset ∧
      d.positionAt? offset = some (d.positionAt offset) ∧
      d.positionAt offset = ⟨before.count '\n', (before.rtakeWhile (· != '\n')).length⟩) ∧
    (∀ m n, m ≤ n → (d.positionAt m).key ≤ (d.positionAt n).key) ∧
    (∀ m n, IsBoundary d.text.toList m → IsBoundary d.text.toList n →
      d.positionAt m = d.positionAt n → m = n) ∧
    ∀ offset, (d.positionAt offset).line < d.lineCount := by
  refine ⟨fun offset => ?_, fun offset => ?_, fun m n h => ?_, fun m n hm hn h => ?_, d.lineStartAt_lt⟩
  · obtain ⟨⟨hb, hle⟩, hgreatest⟩ := d.clampOffset_isGreatest offset
    exact ⟨⟨hb, hle, hb.le⟩, fun n hn => hgreatest ⟨hn.1, hn.2.1⟩⟩
  · obtain ⟨before, after, ht, hs, hp⟩ := d.exists_cut offset
    have he : d.positionAt offset = .behind before := by rw [positionAt, hp, Option.getD_some]
    exact ⟨before, after, ht, hs, hp.trans (congrArg some he.symm), he⟩
  · rcases Nat.lt_or_eq_of_le (d.clampOffset_mono h) with hlt | heq
    · exact (key_positionAt_lt hlt).le
    · have he : d.positionAt? m = d.positionAt? n := by rw [positionAt?, heq, positionAt?]
      rw [positionAt, he, positionAt]
  · rcases Nat.lt_trichotomy m n with hlt | rfl | hgt
    · rw [← clampOffset_eq_self hm, ← clampOffset_eq_self hn] at hlt
      exact absurd (h ▸ key_positionAt_lt hlt) (lt_irrefl _)
    · rfl
    · rw [← clampOffset_eq_self hm, ← clampOffset_eq_self hn] at hgt
      exact absurd (h ▸ key_positionAt_lt hgt) (lt_irrefl _)

end Document

end YamlOutline
