import Mathlib
import YamlOutline.Text.Lowercase

/-! Two ways to leave the case of letters aside. The small form of a text and its form with A to Z in
small letters are the same as long as the text has no capital outside A to Z. A text of small ASCII
letters is the small form of another exactly if the two are equal but for the case of A to Z, with the
one exception of `k`, which is the small form of the Kelvin sign too. -/

namespace YamlOutline.Text
variable {c d : Char} {before cs : List Char} {s t : String}

/-! ### The letters A to Z -/

private theorem isUpper_iff : c.isUpper = true ↔ 65 ≤ c.toNat ∧ c.toNat ≤ 90 := by
  simp only [Char.isUpper, decide_eq_true_eq]
  exact Iff.rfl

private theorem isLower_iff : c.isLower = true ↔ 97 ≤ c.toNat ∧ c.toNat ≤ 122 := by
  simp only [Char.isLower, Bool.and_eq_true, decide_eq_true_eq]
  exact Iff.rfl

private theorem toLower_of_le (h : 0x80 ≤ c.toNat) : c.toLower = c := by
  apply Char.toLower_eq_of_not_isUpper
  rw [isUpper_iff]
  omega

theorem toNat_toLower_lt_iff : c.toLower.toNat < 0x80 ↔ c.toNat < 0x80 := by
  by_cases h : c.isUpper
  · have hrange := isUpper_iff.mp h
    rw [Char.toLower_eq_of_isUpper h, Char.toNat_ofNat, if_pos (.inl (by omega))]
    omega
  · rw [Char.toLower_eq_of_not_isUpper h]

private theorem toLower_toLower (c : Char) : c.toLower.toLower = c.toLower := by
  apply Char.toLower_eq_of_not_isUpper
  simp

theorem eqIgnoringCase_iff :
    eqIgnoringCase s t = true ↔ s.toList.map Char.toLower = t.toList.map Char.toLower := by
  rw [eqIgnoringCase, beq_iff_eq]

theorem eqIgnoringCase_comm (s t : String) : eqIgnoringCase s t = eqIgnoringCase t s := by
  rw [eqIgnoringCase, eqIgnoringCase, Bool.beq_comm]

/-! ### Other capitals -/

/-- The text has a letter outside A to Z that is not small. -/
def HasFarCapital (s : String) : Prop :=
  ∃ c ∈ s.toList, lowercase (.singleton c) ≠ .singleton c.toLower

private theorem smallForm_of_lt (h : c.toNat < 0x80) : smallForm c = c.toLower := by
  rw [smallForm, if_pos h]

/-- A letter that is no capital outside A to Z has the same small form wherever it stands. -/
private theorem lowerFrom_cons_of_near (h : lowercase (.singleton c) = .singleton c.toLower) :
    lowerFrom before (c :: cs) = c.toLower :: lowerFrom (c :: before) cs := by
  have hc : lowerFrom [] [c] = [c.toLower] := by
    have hl := congrArg String.toList h
    simpa [lowercase] using hl
  rw [lowerFrom] at hc ⊢
  by_cases hdot : c.toNat = 0x130
  · simp [hdot] at hc
  · rw [if_neg hdot] at hc ⊢
    by_cases hsigma : c.toNat = 0x3A3
    · have hself : c.toLower = c := toLower_of_le (by omega)
      have hc' : c = Char.ofNat 0x3A3 := by
        apply Char.toNat_inj.mp
        rw [hsigma]
        rfl
      subst hc'
      exact absurd hc (by decide +kernel)
    · rw [if_neg hsigma] at hc ⊢
      obtain hc : smallForm c = c.toLower := by simpa [lowerFrom] using hc
      rw [hc]
      rfl

private theorem lowerFrom_of_near (h : ∀ c ∈ cs, lowercase (.singleton c) = .singleton c.toLower) :
    lowerFrom before cs = cs.map Char.toLower := by
  induction cs generalizing before with
  | nil => rfl
  | cons c cs ih =>
    obtain ⟨hc, hcs⟩ := List.forall_mem_cons.mp h
    rw [lowerFrom_cons_of_near hc, ih hcs, List.map_cons]

/-- Without capitals outside A to Z, small letters are A to Z in small letters. -/
private theorem toList_lowercase (h : ¬ HasFarCapital s) :
    (lowercase s).toList = s.toList.map Char.toLower := by
  have hnear : ∀ c ∈ s.toList, lowercase (.singleton c) = .singleton c.toLower := by
    intro c hc
    exact Classical.byContradiction fun hfar => h ⟨c, hc, hfar⟩
  rw [lowercase, String.toList_ofList, lowerFrom_of_near hnear]

theorem eqIgnoringCase_lowercase (h : ¬ HasFarCapital s) :
    eqIgnoringCase t (lowercase s) = eqIgnoringCase t s := by
  rw [eqIgnoringCase, eqIgnoringCase, toList_lowercase h, List.map_map]
  congr 2
  funext c
  exact toLower_toLower c

/-- ASCII letters are no capitals outside A to Z. -/
theorem not_hasFarCapital (h : ∀ c ∈ s.toList, c.toNat < 0x80) : ¬ HasFarCapital s := by
  rintro ⟨c, hc, hfar⟩
  have hlt := h c hc
  apply hfar
  rw [lowercase, String.toList_singleton, lowerFrom, if_neg (by omega), if_neg (by omega),
    smallForm_of_lt hlt]
  rfl

/-! ### Small forms in ASCII -/

/-- Runs of capitals outside ASCII have their small forms there too, but for the Kelvin sign. -/
private theorem capitals_outside : ∀ run ∈ Table.capitals.toList, run.2.1 < 0x80 ∨
    (0x80 : Int) ≤ run.1 + run.2.2.2 ∨ run.1 = run.2.1 ∧ run.1 + run.2.2.2 = ('k'.toNat : Int) := by
  decide +kernel

private theorem smallForm_of_le (h : 0x80 ≤ c.toNat) :
    smallForm c = 'k' ∨ (smallForm c).toNat = 0 ∨ 0x80 ≤ (smallForm c).toNat := by
  rw [smallForm, if_neg (by omega)]
  split
  · rename_i first last step away hrun
    have hin := Array.find?_some hrun
    simp only [Bool.and_eq_true, decide_eq_true_eq] at hin
    have hmem := capitals_outside _ (Array.mem_toList_iff.mpr (Array.mem_of_find?_eq_some hrun))
    have hcode (n : Nat) : (Char.ofNat n).toNat = 0 ∨ (Char.ofNat n).toNat = n := by
      rw [Char.toNat_ofNat]
      split <;> simp
    have hk : 'k'.toNat = 107 := rfl
    simp only at hmem
    rw [← Char.toNat_inj]
    have := hcode (c.toNat + away).toNat
    omega
  · exact .inr (.inr h)

/-- A small letter from A to Z, `k` apart, is no small form of a letter outside ASCII. -/
private theorem smallForm_ne_of_le (h : 0x80 ≤ c.toNat) (hd : d.isLower = true) (hk : d ≠ 'k') :
    smallForm c ≠ d := by
  rintro rfl
  have hrange := isLower_iff.mp hd
  rcases smallForm_of_le h with he | he | he
  · exact hk he
  · omega
  · omega

/-- No small form is a capital from A to Z. -/
private theorem isUpper_smallForm (c : Char) : (smallForm c).isUpper = false := by
  by_cases h : c.toNat < 0x80
  · rw [smallForm_of_lt h]
    exact Char.isUpper_toLower_eq_false c
  · rw [← Bool.not_eq_true, isUpper_iff]
    rcases smallForm_of_le (Nat.le_of_not_lt h) with he | he | he
    · rw [he]
      decide
    · omega
    · omega

private theorem isUpper_of_mem_lowerFrom (h : d ∈ lowerFrom before cs) : d.isUpper = false := by
  induction cs generalizing before with
  | nil => simp [lowerFrom] at h
  | cons c cs ih =>
    rw [lowerFrom] at h
    rcases List.mem_append.mp h with hsmall | hrest
    · split at hsmall
      · rcases List.mem_pair.mp hsmall with rfl | rfl <;> decide
      · split at hsmall
        · rw [List.mem_singleton] at hsmall
          subst hsmall
          split <;> decide
        · rw [List.mem_singleton.mp hsmall]
          exact isUpper_smallForm c
    · exact ih hrest

/-- A small form all of letters from A to Z, `k` apart, is that of a text in ASCII. -/
private theorem lt_of_lowerFrom (h : ∀ d ∈ lowerFrom before cs, d.isLower = true ∧ d ≠ 'k') :
    ∀ c ∈ cs, c.toNat < 0x80 := by
  induction cs generalizing before with
  | nil => simp
  | cons c cs ih =>
    rw [lowerFrom] at h
    obtain ⟨hsmall, hrest⟩ := List.forall_mem_append.mp h
    refine List.forall_mem_cons.mpr ⟨?_, ih hrest⟩
    by_contra hle
    -- Neither of the two letters with forms of their own gives a letter from A to Z alone.
    split at hsmall
    · exact absurd (hsmall '\u0307' (by simp)).1 (by decide)
    · split at hsmall
      · have hfinal := (hsmall _ List.mem_cons_self).1
        split at hfinal <;> exact absurd hfinal (by decide)
      · obtain ⟨hlower, hk⟩ := hsmall _ List.mem_cons_self
        exact smallForm_ne_of_le (by omega) hlower hk rfl

private theorem map_toLower (h : ∀ c ∈ cs, c.isUpper = false) : cs.map Char.toLower = cs := by
  refine (List.map_congr_left fun c hc => ?_).trans (List.map_id cs)
  apply Char.toLower_eq_of_not_isUpper
  simp [h c hc]

private theorem map_toLower_word (ht : ∀ d ∈ t.toList, d.isLower = true ∧ d ≠ 'k') :
    t.toList.map Char.toLower = t.toList := by
  apply map_toLower
  intro d hd
  simpa using Char.not_isUpper_of_isLower (ht d hd).1

/-- What a word of small letters without `k` is the small form of. -/
theorem lowercase_eq_iff (ht : ∀ d ∈ t.toList, d.isLower = true ∧ d ≠ 'k') :
    lowercase s = t ↔ eqIgnoringCase s t = true := by
  rw [eqIgnoringCase_iff, map_toLower_word ht, ← String.toList_inj]
  constructor
  · intro heq
    have hascii : ∀ c ∈ s.toList, c.toNat < 0x80 := by
      apply lt_of_lowerFrom
      rw [← heq, lowercase, String.toList_ofList] at ht
      exact ht
    rw [← heq, toList_lowercase (not_hasFarCapital hascii)]
  · intro heq
    have hascii : ∀ c ∈ s.toList, c.toNat < 0x80 := by
      intro c hc
      have hmem : c.toLower ∈ t.toList := heq ▸ List.mem_map_of_mem hc
      have hrange := isLower_iff.mp (ht _ hmem).1
      exact toNat_toLower_lt_iff.mp (by omega)
    rw [toList_lowercase (not_hasFarCapital hascii), heq]

/-- Such a word is found in the small form of a text exactly if it is found in the text. -/
theorem eqIgnoringCase_lowercase_iff (ht : ∀ d ∈ t.toList, d.isLower = true ∧ d ≠ 'k') :
    eqIgnoringCase t (lowercase s) = true ↔ eqIgnoringCase t s = true := by
  have hsmall : (lowercase s).toList.map Char.toLower = (lowercase s).toList := by
    apply map_toLower
    rw [lowercase, String.toList_ofList]
    exact fun d => isUpper_of_mem_lowerFrom
  rw [eqIgnoringCase_iff, map_toLower_word ht, hsmall, String.toList_inj, eq_comm, lowercase_eq_iff ht,
    eqIgnoringCase_comm]

end YamlOutline.Text
