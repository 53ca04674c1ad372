import Mathlib.Data.List.Infix
import Mathlib.Order.Bounds.Defs
import YamlOutline.Proofs.Text.Blank
import YamlOutline.Text.Offset

/-! Byte offsets that lie between two characters, and what stands between two of them. -/

namespace YamlOutline.Text
variable {cs before mid after : List Char} {m n : Nat}

@[simp] theorem size_append (cs ds : List Char) : size (cs ++ ds) = size cs + size ds := by
  induction cs with
  | nil => simp [size]
  | cons c cs ih => simp [size, ih, Nat.add_assoc]

theorem size_pos (h : cs ≠ []) : 0 < size cs := by
  obtain ⟨c, r, rfl⟩ := List.exists_cons_of_ne_nil h
  exact Nat.lt_of_lt_of_le c.utf8Size_pos (Nat.le_add_right _ _)

theorem dropBytes?_append (before after : List Char) :
    dropBytes? (before ++ after) (size before) = some after := by
  induction before with
  | nil => simp [size, dropBytes?]
  | cons c before ih =>
    obtain ⟨k, hk⟩ := Nat.exists_eq_succ_of_ne_zero (Nat.ne_of_gt (size_pos (List.cons_ne_nil c before)))
    have hc : size (c :: before) = c.utf8Size + size before := rfl
    rw [hk, List.cons_append, dropBytes?, if_pos (by omega)]
    rw [show k + 1 - c.utf8Size = size before by omega, ih]

private theorem takeBytes?_append (before after : List Char) :
    takeBytes? (before ++ after) (size before) = some before := by
  induction before with
  | nil => cases after <;> simp [size, takeBytes?]
  | cons c before ih =>
    obtain ⟨k, hk⟩ := Nat.exists_eq_succ_of_ne_zero (Nat.ne_of_gt (size_pos (List.cons_ne_nil c before)))
    have hc : size (c :: before) = c.utf8Size + size before := rfl
    rw [hk, List.cons_append, takeBytes?, if_pos (by omega)]
    rw [show k + 1 - c.utf8Size = size before by omega, ih, Option.map_some]

theorem upTo_append (before after : List Char) : upTo (before ++ after) (size before) = before := by
  induction before with
  | nil =>
    cases after with
    | nil => rfl
    | cons c after => simp [upTo, size, Nat.not_le_of_lt c.utf8Size_pos]
  | cons c before ih =>
    rw [List.cons_append, upTo, size, if_pos (Nat.le_add_right _ _), Nat.add_sub_cancel_left, ih]

theorem upTo_subset (cs : List Char) (n : Nat) : upTo cs n ⊆ cs := by
  induction cs generalizing n with
  | nil => exact List.Subset.refl _
  | cons c cs ih =>
    rw [upTo]
    split
    · exact List.cons_subset_cons c (ih _)
    · exact List.nil_subset _

/-- What stands between two offsets of a text. -/
theorem slice?_append (before mid after : List Char) :
    slice? (before ++ mid ++ after) (size before) (size before + size mid) = some mid := by
  rw [slice?, if_pos (Nat.le_add_right _ _), List.append_assoc, dropBytes?_append, Option.bind_some,
    Nat.add_sub_cancel_left, takeBytes?_append]

/-- Two stretches of a text that end together end with the same character. -/
theorem getLast?_eq_of_same_end {before' mid' after' : List Char}
    (h : before ++ mid ++ after = before' ++ mid' ++ after')
    (hsize : size before + size mid = size before' + size mid') (hne : mid ≠ []) (hne' : mid' ≠ []) :
    mid.getLast? = mid'.getLast? := by
  have htake := takeBytes?_append (before ++ mid) after
  have htake' := takeBytes?_append (before' ++ mid') after'
  rw [size_append] at htake htake'
  rw [h, hsize, htake'] at htake
  rw [← List.getLast?_append_of_ne_nil before hne, ← Option.some.inj htake,
    List.getLast?_append_of_ne_nil before' hne']

/-- Trimming that makes a text no shorter leaves it alone. -/
theorem trimEnd_eq_self_of_size_le (h : size cs ≤ size (trimEnd cs)) : trimEnd cs = cs := by
  obtain ⟨blanks, hblanks⟩ : trimEnd cs <+: cs := by
    rw [trimEnd_eq_rdropWhile]
    exact List.rdropWhile_prefix _ _
  have hnone : blanks = [] := by
    by_contra hne
    have hpos := size_pos hne
    have hsize := congrArg size hblanks
    rw [size_append] at hsize
    omega
  rwa [hnone, List.append_nil] at hblanks

/-- The offset lies at an end of the text or between two of its characters. -/
def IsBoundary (cs : List Char) (n : Nat) : Prop :=
  ∃ before, before <+: cs ∧ size before = n

theorem IsBoundary.le (h : IsBoundary cs n) : n ≤ size cs := by
  obtain ⟨before, ⟨after, rfl⟩, rfl⟩ := h
  simp

theorem IsBoundary.zero (cs : List Char) : IsBoundary cs 0 :=
  ⟨[], List.nil_prefix, rfl⟩

private theorem isBoundary_iff_take :
    IsBoundary cs n ↔ ∃ k, k ≤ cs.length ∧ size (cs.take k) = n := by
  constructor
  · rintro ⟨before, hb, rfl⟩
    exact ⟨before.length, hb.length_le, by rw [← List.prefix_iff_eq_take.mp hb]⟩
  · rintro ⟨k, _, rfl⟩
    exact ⟨cs.take k, List.take_prefix k cs, rfl⟩

instance (cs : List Char) (n : Nat) : Decidable (IsBoundary cs n) :=
  decidable_of_iff _ isBoundary_iff_take.symm

private theorem dropBytes?_eq_some (h : dropBytes? cs n = some after) :
    ∃ before, cs = before ++ after ∧ size before = n := by
  fun_induction dropBytes? cs n with
  | case1 cs => exact ⟨[], Option.some.inj h, rfl⟩
  | case2 => cases h
  | case3 c r n hc ih =>
    obtain ⟨before, rfl, hs⟩ := ih h
    refine ⟨c :: before, rfl, ?_⟩
    rw [size, hs]
    omega
  | case4 => cases h

private theorem isBoundary_iff : isBoundary cs n = true ↔ IsBoundary cs n := by
  rw [isBoundary, Option.isSome_iff_exists]
  constructor
  · rintro ⟨after, h⟩
    obtain ⟨before, rfl, hs⟩ := dropBytes?_eq_some h
    exact ⟨before, List.prefix_append .., hs⟩
  · rintro ⟨before, ⟨after, rfl⟩, rfl⟩
    exact ⟨after, dropBytes?_append before after⟩

/-- Stepping back stops at the first boundary, and at the start of the text at the latest. -/
private theorem stepBack_isGreatest (cs : List Char) (n : Nat) :
    IsGreatest {m | IsBoundary cs m ∧ m ≤ n} (stepBack cs n) := by
  induction n with
  | zero => exact ⟨⟨.zero cs, Nat.le_refl 0⟩, fun m hm => hm.2⟩
  | succ n ih =>
    rw [stepBack]
    split
    · rename_i hb
      exact ⟨⟨isBoundary_iff.mp hb, Nat.le_refl _⟩, fun m hm => hm.2⟩
    · rename_i hb
      obtain ⟨⟨hs, hle⟩, hgreatest⟩ := ih
      refine ⟨⟨hs, Nat.le_succ_of_le hle⟩, fun m ⟨hm, hmn⟩ => hgreatest ⟨hm, ?_⟩⟩
      refine Nat.le_of_lt_succ (Nat.lt_of_le_of_ne hmn ?_)
      rintro rfl
      exact hb (isBoundary_iff.mpr hm)

theorem clamp_isGreatest (cs : List Char) (n : Nat) :
    IsGreatest {m | IsBoundary cs m ∧ m ≤ n} (clamp cs n) := by
  obtain ⟨⟨hb, hle⟩, hgreatest⟩ := stepBack_isGreatest cs (min n (size cs))
  refine ⟨⟨hb, Nat.le_trans hle (Nat.min_le_left ..)⟩, fun m ⟨hm, hmn⟩ => hgreatest ⟨hm, ?_⟩⟩
  exact Nat.le_min.mpr ⟨hmn, hm.le⟩

/-- The character `c` begins at the offset. -/
def At (cs : List Char) (n : Nat) (c : Char) : Prop :=
  ∃ before after, cs = before ++ c :: after ∧ size before = n

/-- What begins between two places of a text stands between them. -/
theorem At.mem {c : Char} (h : At (before ++ mid ++ after) n c) (hlo : size before ≤ n)
    (hhi : n < size before + size mid) : c ∈ mid := by
  obtain ⟨p, q, hpq, rfl⟩ := h
  obtain ⟨r, rfl⟩ : ∃ r, p = before ++ r := by
    rw [List.append_assoc] at hpq
    rcases List.append_eq_append_iff.mp hpq with ⟨r, rfl, -⟩ | ⟨r, rfl, -⟩
    · exact ⟨r, rfl⟩
    · rw [size_append] at hlo
      have hnil : r = [] := by
        by_contra hne
        have := size_pos hne
        omega
      exact ⟨[], by simp [hnil]⟩
  rw [List.append_assoc, List.append_assoc, List.append_cancel_left_eq] at hpq
  rw [size_append] at hhi
  rcases List.append_eq_append_iff.mp hpq with ⟨s, rfl, -⟩ | ⟨s, rfl, hs⟩
  · rw [size_append] at hhi
    omega
  · cases s with
    | nil => simp at hhi
    | cons d s =>
      obtain ⟨rfl, -⟩ := List.cons.inj hs
      simp

/-- Two boundaries cut the text into three. -/
theorem IsBoundary.cut (hm : IsBoundary cs m) (hn : IsBoundary cs n) (h : m ≤ n) :
    ∃ before mid after, cs = before ++ mid ++ after ∧ m = size before ∧ n = size before + size mid := by
  obtain ⟨p, hp, rfl⟩ := hm
  obtain ⟨q, hq, rfl⟩ := hn
  have hpq : p <+: q := by
    rcases List.prefix_or_prefix_of_prefix hp hq with hle | ⟨r, rfl⟩
    · exact hle
    · have hr : r = [] := by
        by_contra hne
        have := size_pos hne
        rw [size_append] at h
        omega
      simp [hr]
  obtain ⟨mid, rfl⟩ := hpq
  obtain ⟨after, rfl⟩ := hq
  exact ⟨p, mid, after, rfl, rfl, size_append p mid⟩

end YamlOutline.Text
