import YamlOutline.Proofs.Syntax.Leaves
import YamlOutline.Syntax.Layout

/-! Places in a text: what stands there, and what is read from there on. -/

namespace YamlOutline.Syntax
open Text (IsBoundary size)
variable {cs : List Char} {p : Cursor}

section
variable {c : Char}

theorem isBlank_of_isBreak (h : isBreak c = true) : Text.isBlank c = true := by
  rcases (Bool.or_eq_true _ _).mp h with h | h <;> rw [beq_iff_eq.mp h] <;> rfl

theorem isBlank_of_isWhite (h : isWhite c = true) : Text.isBlank c = true := by
  rcases (Bool.or_eq_true _ _).mp h with h | h <;> rw [beq_iff_eq.mp h] <;> rfl

theorem isVisible_eq_false_of_gap (h : (isNull c || isWhite c || isBreak c) = true) :
    isVisible c = false := by
  simp only [Bool.or_eq_true, isNull, isWhite, isBreak, beq_iff_eq, or_assoc] at h
  rcases h with h | rfl | rfl | rfl | rfl
  · simp [isVisible, h]
  all_goals rfl

theorem row_of_isVisible (h : isVisible c = true) : isBreak c = false ∧ isWhite c = false := by
  have hgap : ¬(isNull c || isWhite c || isBreak c) = true := fun hgap => by
    rw [isVisible_eq_false_of_gap hgap] at h
    cases h
  simp only [Bool.or_eq_true, not_or, Bool.not_eq_true] at hgap
  exact ⟨hgap.2, hgap.1.2⟩

theorem row_of_isNull (h : isNull c = true) : isBreak c = false ∧ isWhite c = false := by
  have hne : ∀ d, isNull d = false → c ≠ d := by
    rintro d hd rfl
    rw [hd] at h
    cases h
  constructor
  · simp [isBreak, hne '\n' rfl, hne '\r' rfl]
  · simp [isWhite, hne ' ' rfl, hne '\t' rfl]

end

namespace Cursor

/-- The place belongs to the text: it is some characters behind the first one. -/
def In (cs : List Char) (p : Cursor) : Prop :=
  ∃ n, p = (ofText cs).drop n

theorem rest_next (p : Cursor) : p.next.rest = p.rest.tail := by
  unfold next
  split
  · simp_all
  · split <;> simp_all

theorem offset_next (p : Cursor) : p.next.offset = p.offset + size (p.rest.take 1) := by
  unfold next
  split
  · simp_all [size]
  · split <;> simp_all [size]

theorem rest_drop (p : Cursor) (n : Nat) : (p.drop n).rest = p.rest.drop n := by
  induction n generalizing p with
  | zero => rfl
  | succ n ih => rw [drop, ih, rest_next, List.drop_tail]

theorem column_next (p : Cursor) : p.next.column =
    match p.rest with
    | [] => p.column
    | c :: _ => if isBreak c then 0 else p.column + 1 := by
  unfold next
  split
  · simp_all
  · split <;> simp_all

theorem row_next (p : Cursor) : p.next.row =
    match p.rest with
    | [] => p.row
    | c :: _ => if isBreak c then p.row + 1 else p.row := by
  unfold next
  split
  · simp_all
  · split <;> simp_all

theorem offset_drop (p : Cursor) (n : Nat) : (p.drop n).offset = p.offset + size (p.rest.take n) := by
  induction n generalizing p with
  | zero => simp [drop, size]
  | succ n ih =>
    rw [drop, ih, rest_next, offset_next, Nat.add_assoc, ← Text.size_append]
    cases p.rest <;> simp

theorem drop_add (p : Cursor) (m n : Nat) : (p.drop m).drop n = p.drop (m + n) := by
  induction m generalizing p with
  | zero => rw [Nat.zero_add]; rfl
  | succ m ih => rw [Nat.succ_add]; exact ih p.next

theorem In.drop (h : p.In cs) (n : Nat) : (p.drop n).In cs := by
  obtain ⟨m, rfl⟩ := h
  exact ⟨m + n, drop_add _ m n⟩

theorem In.next (h : p.In cs) : p.next.In cs := h.drop 1

theorem offset_le_drop (p : Cursor) (n : Nat) : p.offset ≤ (p.drop n).offset := by
  rw [offset_drop]
  exact Nat.le_add_right _ _

theorem offset_lt_drop (hp : p.rest ≠ []) {n : Nat} (hn : n ≠ 0) : p.offset < (p.drop n).offset := by
  have hne : p.rest.take n ≠ [] := by simp [hp, hn]
  have := Text.size_pos hne
  rw [offset_drop]
  omega

theorem row_le_drop (p : Cursor) (n : Nat) : p.row ≤ (p.drop n).row := by
  induction n generalizing p with
  | zero => exact Nat.le_refl _
  | succ n ih =>
    refine Nat.le_trans ?_ (ih p.next)
    rw [row_next]
    split
    · exact Nat.le_refl _
    · split <;> omega

theorem ofText_in (cs : List Char) : (ofText cs).In cs :=
  ⟨0, rfl⟩

/-- At most a byte order mark stands before the first place. -/
theorem ofText_read (cs : List Char) : ∃ mark, cs = mark ++ (ofText cs).rest ∧
    (ofText cs).offset = size mark ∧ (ofText cs).column = 0 ∧ ∀ c ∈ mark, c.toNat = 0xFEFF := by
  unfold ofText
  split
  · split
    · rename_i c r hc
      exact ⟨[c], rfl, by simp [size], rfl, by simpa using hc⟩
    · exact ⟨[], rfl, rfl, rfl, by simp⟩
  · exact ⟨[], rfl, rfl, rfl, by simp⟩

/-- What is still to be read is the rest of the text. -/
theorem In.read (h : p.In cs) : ∃ before, cs = before ++ p.rest ∧ p.offset = size before := by
  obtain ⟨n, rfl⟩ := h
  obtain ⟨mark, hcs, ho, -, -⟩ := ofText_read cs
  refine ⟨mark ++ (ofText cs).rest.take n, ?_, ?_⟩
  · rw [rest_drop, List.append_assoc, List.take_append_drop, ← hcs]
  · rw [offset_drop, ho, Text.size_append]

theorem In.boundary (h : p.In cs) : IsBoundary cs p.offset := by
  obtain ⟨before, hcs, ho⟩ := h.read
  exact ⟨before, ⟨p.rest, hcs.symm⟩, ho.symm⟩

/-- The next characters, and where they stand. -/
private theorem In.cut (h : p.In cs) (n : Nat) : ∃ before,
    cs = before ++ p.rest.take n ++ p.rest.drop n ∧ p.offset = size before ∧
      (p.drop n).offset = size before + size (p.rest.take n) := by
  obtain ⟨before, hcs, ho⟩ := h.read
  refine ⟨before, ?_, ho, by rw [offset_drop, ho]⟩
  rw [List.append_assoc, List.take_append_drop, ← hcs]

theorem In.slice (h : p.In cs) (n : Nat) :
    Text.slice? cs p.offset (p.drop n).offset = some (p.rest.take n) := by
  obtain ⟨before, hcs, ho, hn⟩ := h.cut n
  rw [ho, hn]
  conv_lhs => rw [hcs]
  exact Text.slice?_append _ _ _

/-- White space needs no leaf. -/
theorem In.covers {n : Nat} (h : p.In cs) (hb : ∀ c ∈ p.rest.take n, Text.isBlank c = true) :
    Covers cs p.offset (p.drop n).offset [] := by
  obtain ⟨before, hcs, ho, hn⟩ := h.cut n
  intro o c hat hlo hhi
  rw [hcs] at hat
  exact .inl (hb c (hat.mem (ho ▸ hlo) (hn ▸ hhi)))

theorem drop_of_rest_eq_nil (h : p.rest = []) (n : Nat) : p.drop n = p := by
  induction n with
  | zero => rfl
  | succ n ih =>
    have hnext : p.next = p := by
      unfold next
      rw [h]
    rw [drop, hnext, ih]

theorem row_drop_of_no_break {n : Nat} (h : ∀ c ∈ p.rest.take n, isBreak c = false) :
    (p.drop n).row = p.row := by
  induction n generalizing p with
  | zero => rfl
  | succ n ih =>
    cases hp : p.rest with
    | nil => rw [drop_of_rest_eq_nil hp]
    | cons c r =>
      have hnext : p.next.rest = r := by rw [rest_next, hp]; rfl
      rw [hp, List.take_succ_cons, List.forall_mem_cons] at h
      rw [drop, ih (by rw [hnext]; exact h.2), row_next, hp]
      simp [h.1]

/-- A place of the text that is not before another one is some characters behind it. -/
theorem In.drop_of_le {q : Cursor} (hp : p.In cs) (hq : q.In cs) (hle : p.offset ≤ q.offset) :
    ∃ n, q = p.drop n := by
  obtain ⟨m, rfl⟩ := hp
  obtain ⟨n, rfl⟩ := hq
  rcases Nat.le_total m n with hmn | hnm
  · exact ⟨n - m, by rw [drop_add, Nat.add_sub_cancel' hmn]⟩
  · refine ⟨0, ?_⟩
    have hm : (ofText cs).drop m = ((ofText cs).drop n).drop (m - n) := by
      rw [drop_add, Nat.add_sub_cancel' hnm]
    rw [hm] at hle ⊢
    rcases Nat.eq_zero_or_pos (m - n) with hzero | hpos
    · rw [hzero]
      rfl
    · have hrest : ((ofText cs).drop n).rest = [] := by
        by_contra hne
        exact Nat.not_le_of_lt (offset_lt_drop hne (Nat.ne_of_gt hpos)) hle
      rw [drop_of_rest_eq_nil hrest]
      rfl

end Cursor

end YamlOutline.Syntax
