import Mathlib.Data.List.TakeWhile
import YamlOutline.Proofs.Syntax.Properties

/-! Tokens of a text and of a piece of it. A token that ends inside the piece is the same token when
nothing follows the piece. -/

namespace YamlOutline.Syntax
variable {cs behind : List Char} {c : Char} {n : Nat}

/-- The characters whose part depends on the next one: an indicator is one only before a gap, and a
document marker is three in a row. -/
def looksAhead (c : Char) : Bool :=
  c == '-' || c == '?' || c == ':' || c == '.'

/-- What follows the piece `cs` does not matter for the characters in it: it is white space or the end of
the text, or else the last character of the piece does not look ahead. -/
def Sealed (cs behind : List Char) : Prop :=
  atGap behind = true ∨ ∃ c, cs.getLast? = some c ∧ looksAhead c = false

instance (cs behind : List Char) : Decidable (Sealed cs behind) :=
  decidable_of_iff (atGap behind = true ∨ cs.getLast?.any (fun c => !looksAhead c) = true) (by
    simp [Sealed, Option.any_eq_true])

theorem Sealed.tail (h : Sealed (c :: cs) behind) (hcs : cs ≠ []) : Sealed cs behind := by
  rcases h with h | ⟨b, hb, hbracket⟩
  · exact .inl h
  · refine .inr ⟨b, ?_, hbracket⟩
    rwa [List.getLast?_cons_of_ne_nil hcs] at hb

theorem Sealed.gap_of_last (h : Sealed cs behind) (hlast : cs.getLast? = some c)
    (hc : looksAhead c = true) : atGap behind = true := by
  rcases h with h | ⟨b, hb, hno⟩
  · exact h
  · obtain rfl : c = b := by simpa [hlast] using hb
    rw [hno] at hc
    cases hc

/-! ### One character ahead -/

theorem atGap_append (h : Sealed (c :: cs) behind) (hc : looksAhead c = true) :
    atGap (cs ++ behind) = atGap cs := by
  cases cs with
  | nil => exact h.gap_of_last rfl hc
  | cons d cs => rfl

private theorem Plain.isHead_append (inFlow : Bool) (h : Sealed (c :: cs) behind)
    (hc : looksAhead c = true) :
    isHead inFlow (cs ++ behind) = isHead inFlow cs := by
  cases cs with
  | nil => exact isHead_of_atGap inFlow (h.gap_of_last rfl hc)
  | cons d cs => rfl

/-! ### Document markers -/

theorem ne_of_gap {d : Char} (h : (isNull c || isWhite c || isBreak c) = true)
    (hd : isVisible d = true) : (c == d) = false := by
  rw [beq_eq_false_iff_ne]
  rintro rfl
  rw [isVisible_eq_false_of_gap h] at hd
  cases hd

private theorem isMarker_append {d : Char} (hd : isVisible d = true) (hahead : looksAhead d = true)
    (h : Sealed cs behind) (hcs : cs ≠ []) : isMarker d (cs ++ behind) = isMarker d cs := by
  -- where the piece is shorter than a marker, its last character or the next one is no `d`
  have short {c : Char} (hlast : cs.getLast? = some c) : c ≠ d ∨ atGap behind = true := by
    by_cases hc : c = d
    · exact .inr (h.gap_of_last hlast (hc ▸ hahead))
    · exact .inl hc
  have next (h : atGap behind = true) : behind = [] ∨ ∃ b r, behind = b :: r ∧ (b == d) = false := by
    cases behind with
    | nil => exact .inl rfl
    | cons b r => exact .inr ⟨b, r, rfl, ne_of_gap h hd⟩
  rcases cs with _ | ⟨a, _ | ⟨b, _ | ⟨e, _ | ⟨f, r⟩⟩⟩⟩
  · exact absurd rfl hcs
  · rcases short (c := a) rfl with hne | hgap
    · rcases behind with _ | ⟨b, _ | ⟨e, r⟩⟩ <;> simp [isMarker, hne]
    · obtain rfl | ⟨b, r, rfl, hbd⟩ := next hgap
      · rfl
      · rcases r with _ | ⟨e, r⟩ <;> simp [isMarker, hbd]
  · rcases short (c := b) rfl with hne | hgap
    · rcases behind with _ | ⟨e, r⟩ <;> simp [isMarker, hne]
    · obtain rfl | ⟨e, r, rfl, hed⟩ := next hgap
      · rfl
      · simp [isMarker, hed]
  · change (a == d && b == d && e == d && atGap behind) = (a == d && b == d && e == d && true)
    rcases short (c := e) rfl with hne | hgap
    · simp [hne]
    · rw [hgap]
  · rfl

theorem atDocumentMarker_append (h : Sealed cs behind) (hcs : cs ≠ []) :
    atDocumentMarker (cs ++ behind) = atDocumentMarker cs := by
  rw [atDocumentMarker, atDocumentMarker, isMarker_append (by decide) (by decide) h hcs,
    isMarker_append (by decide) (by decide) h hcs]

/-! ### Names and tags -/

private theorem takeWhile_append_of_length_le {p : Char → Bool}
    (h : ((cs ++ behind).takeWhile p).length ≤ cs.length) :
    (cs ++ behind).takeWhile p = cs.takeWhile p := by
  rw [List.takeWhile_append] at h ⊢
  split at h
  · rename_i hall
    have hnil : behind.takeWhile p = [] := by
      rw [List.length_append] at h
      exact List.eq_nil_of_length_eq_zero (by omega)
    rw [if_pos hall, hnil, List.append_nil]
    exact ((List.takeWhile_prefix p).eq_of_length hall).symm
  · rename_i hall
    rw [if_neg hall]

theorem nameLength?_append (h : nameLength? (cs ++ behind) = some n) (hn : n ≤ cs.length) :
    nameLength? cs = some n := by
  cases cs with
  | nil => exact absurd (Nat.le_zero.mp hn) (nameLength?_ne_zero h)
  | cons c r =>
    simp only [List.cons_append, nameLength?] at h ⊢
    split at h <;> cases h
    rename_i k hk
    rw [List.length_cons] at hn
    rw [takeWhile_append_of_length_le (by omega)] at hk
    rw [hk]

private theorem escapedLength?_percent {p : Char → Bool} (a b : Char) (r : List Char) :
    escapedLength? p ('%' :: a :: b :: r) =
      if isHexDigit a && isHexDigit b then (escapedLength? p r).map (· + 3) else none := by
  rw [escapedLength?.eq_def]
  rfl

private theorem escapedLength?_percent_eq_some {p : Char → Bool} {r : List Char}
    (h : escapedLength? p ('%' :: r) = some n) : ∃ a b s, r = a :: b :: s ∧ 3 ≤ n := by
  rcases r with _ | ⟨a, _ | ⟨b, s⟩⟩
  · cases h
  · cases h
  · rw [escapedLength?_percent] at h
    split at h
    · obtain ⟨k, -, rfl⟩ := Option.map_eq_some_iff.mp h
      exact ⟨a, b, s, rfl, Nat.le_add_left _ _⟩
    · cases h

private theorem escapedLength?_cons {p : Char → Bool} (hc : c ≠ '%') (r : List Char) :
    escapedLength? p (c :: r) = if p c then (escapedLength? p r).map (· + 1) else some 0 := by
  rw [escapedLength?.eq_def]
  simp [hc]

private theorem escapedLength?_append {p : Char → Bool}
    (h : escapedLength? p (cs ++ behind) = some n)
    (hn : n ≤ cs.length) : escapedLength? p cs = some n := by
  induction hlen : cs.length using Nat.strong_induction_on generalizing cs n with
  | _ len ih =>
    rcases cs with _ | ⟨c, r⟩
    · obtain rfl := Nat.le_zero.mp hn
      rfl
    rw [List.length_cons] at hn hlen
    by_cases hc : c = '%'
    · subst hc
      obtain ⟨a, b, s, hr, hthree⟩ := escapedLength?_percent_eq_some h
      rcases r with _ | ⟨a, _ | ⟨b, s⟩⟩
      · simp at hn; omega
      · simp at hn; omega
      simp only [List.cons_append, escapedLength?_percent] at h ⊢
      split at h
      · rename_i hhex
        obtain ⟨k, hk, rfl⟩ := Option.map_eq_some_iff.mp h
        simp only [List.length_cons] at hn hlen
        rw [if_pos hhex, ih s.length (by omega) hk (by omega) rfl, Option.map_some]
      · cases h
    · rw [List.cons_append, escapedLength?_cons hc] at h
      rw [escapedLength?_cons hc]
      split at h
      · obtain ⟨k, hk, rfl⟩ := Option.map_eq_some_iff.mp h
        rw [if_pos ‹_›, ih r.length (by omega) hk (by omega) rfl, Option.map_some]
      · rw [if_neg ‹_›, h]

/-- The characters of a class inside the one that is asked for are not left out. -/
private theorem length_takeWhile_le_escapedLength? {p q : Char → Bool}
    (hq : ∀ c, q c = true → p c = true ∧ c ≠ '%')
    (h : escapedLength? p cs = some n) : (cs.takeWhile q).length ≤ n := by
  induction cs generalizing n with
  | nil => simp
  | cons c r ih =>
    rw [List.takeWhile_cons]
    split
    · rename_i hc
      obtain ⟨hp, hne⟩ := hq c hc
      rw [escapedLength?_cons hne, if_pos hp] at h
      obtain ⟨k, hk, rfl⟩ := Option.map_eq_some_iff.mp h
      exact Nat.succ_le_succ (ih hk)
    · exact Nat.zero_le n

private theorem isTag_of_isWord (h : isWord c = true) : isTag c = true ∧ c ≠ '%' := by
  have hne : ∀ d, isWord d = false → c ≠ d := by
    rintro d hd rfl
    rw [hd] at h
    cases h
  simp [isTag, isUri, h, isFlowIndicator, hne '!' rfl, hne ',' rfl, hne '[' rfl, hne ']' rfl,
    hne '\x7b' rfl, hne '\x7d' rfl, hne '%' rfl]

private theorem shorthandLength?_append (h : shorthandLength? (cs ++ behind) = some n)
    (hn : n ≤ cs.length) :
    shorthandLength? cs = some n := by
  have of_le (hle : ((cs ++ behind).takeWhile isWord).length ≤ cs.length) :
      (cs ++ behind).takeWhile isWord = cs.takeWhile isWord ∧
        (cs ++ behind).drop (cs.takeWhile isWord).length =
          cs.drop (cs.takeWhile isWord).length ++ behind := by
    refine ⟨takeWhile_append_of_length_le hle, List.drop_append_of_le_length ?_⟩
    exact (List.takeWhile_prefix isWord).length_le
  simp only [shorthandLength?] at h ⊢
  split at h
  · rename_i u hu
    simp only [Option.bind_eq_bind, Option.bind_eq_some_iff] at h
    obtain ⟨m, hm, h⟩ := h
    split at h <;> cases h
    rename_i hne
    obtain ⟨hw, hdrop⟩ := of_le (by omega)
    rw [hw] at hu hn ⊢
    rw [hdrop] at hu
    rcases hr : cs.drop (cs.takeWhile isWord).length with _ | ⟨d, v⟩
    · have := List.drop_eq_nil_iff.mp hr
      omega
    · rw [hr, List.cons_append, List.cons.injEq] at hu
      obtain ⟨rfl, rfl⟩ := hu
      have hlen := congrArg List.length hr
      rw [List.length_drop, List.length_cons] at hlen
      have hm' := escapedLength?_append hm (by omega)
      simp [hm', bne_iff_ne.mp hne]
  · rename_i hno
    simp only [Option.bind_eq_bind, Option.bind_eq_some_iff] at h
    obtain ⟨m, hm, h⟩ := h
    split at h <;> cases h
    rename_i hne
    have hm' := escapedLength?_append hm hn
    have hle := length_takeWhile_le_escapedLength? (fun c (hc : isWord c = true) => isTag_of_isWord hc) hm
    obtain ⟨hw, hdrop⟩ := of_le (by omega)
    split
    · rename_i u hu
      exact absurd (by rw [hw, hdrop, hu, List.cons_append]) (hno (u ++ behind))
    · simp [hm', bne_iff_ne.mp hne]

private theorem tagLength?_verbatim (c : Char) (u : List Char) :
    tagLength? (c :: '<' :: u) = (escapedLength? isUri u).bind fun n =>
      if n != 0 && (u.drop n).head? == some '>' then some (n + 3) else none := by
  rw [tagLength?.eq_def]
  rfl

private theorem tagLength?_shorthand {d : Char} {r : List Char} (c : Char)
    (hgap : atGap (d :: r) = false)
    (hd : d ≠ '<') : tagLength? (c :: d :: r) = (shorthandLength? (d :: r)).map (· + 1) := by
  rw [tagLength?.eq_def]
  simp only [hgap, Bool.false_eq_true, if_false]
  split
  · rename_i hu
    exact absurd (List.cons.inj hu).1 hd
  · rfl

theorem tagLength?_append (h : tagLength? (cs ++ behind) = some n) (hn : n ≤ cs.length) :
    tagLength? cs = some n := by
  have hne := tagLength?_ne_zero h
  rcases cs with _ | ⟨c, _ | ⟨d, r⟩⟩
  · exact absurd (Nat.le_zero.mp hn) hne
  · obtain rfl : n = 1 := by
      simp only [List.length_cons, List.length_nil] at hn
      omega
    rfl
  simp only [List.cons_append, List.length_cons] at h hn
  cases hgap : atGap (d :: r) with
  | true =>
    have hgap' : atGap (d :: (r ++ behind)) = true := hgap
    rw [tagLength?.eq_def] at h ⊢
    simpa [hgap, hgap'] using h
  | false =>
    by_cases hd : d = '<'
    · subst hd
      rw [tagLength?_verbatim, Option.bind_eq_some_iff] at h ⊢
      obtain ⟨m, hm, h⟩ := h
      split at h <;> cases h
      rename_i hclose
      refine ⟨m, escapedLength?_append hm (by omega), ?_⟩
      have hm' : m < r.length := by omega
      rw [List.drop_append_of_le_length (by omega), List.head?_append_of_ne_nil] at hclose
      · rw [if_pos hclose]
      · simpa using hm'
    · have hgap' : atGap (d :: (r ++ behind)) = false := hgap
      rw [tagLength?_shorthand c hgap' hd, Option.map_eq_some_iff] at h
      rw [tagLength?_shorthand c hgap hd, Option.map_eq_some_iff]
      obtain ⟨m, hm, rfl⟩ := h
      have hm : shorthandLength? ((d :: r) ++ behind) = some m := hm
      exact ⟨m, shorthandLength?_append hm (by simpa using hn), rfl⟩

/-! ### Plain scalars -/

namespace Plain

theorem begins_append (inFlow : Bool) (h : Sealed cs behind) (hcs : cs ≠ []) :
    begins inFlow (cs ++ behind) = begins inFlow cs := by
  obtain ⟨c, r, rfl⟩ := List.exists_cons_of_ne_nil hcs
  simp only [List.cons_append, begins]
  split
  · rename_i hc
    refine isHead_append inFlow h ?_
    rw [looksAhead, hc, Bool.true_or]
  · rfl

private theorem isText_append {inFlow afterPlain : Bool} {r : List Char}
    (h : Sealed (c :: r) behind) :
    isText inFlow c (r ++ behind) afterPlain = isText inFlow c r afterPlain := by
  unfold isText
  split
  · obtain rfl := beq_iff_eq.mp ‹_›
    exact isHead_append inFlow h rfl
  · rfl

private theorem endsRows_append {floor column : Nat} {r : List Char} (h : Sealed (c :: r) behind) :
    endsRows floor c (r ++ behind) column = endsRows floor c r column := by
  have hmarker := atDocumentMarker_append h (List.cons_ne_nil c r)
  rw [List.cons_append] at hmarker
  rw [endsRows, endsRows, hmarker]

private theorem step_append_iff {inFlow : Bool} {floor : Nat} {r : List Char} {s t : At}
    (h : Sealed (c :: r) behind) :
    Step inFlow floor c (r ++ behind) s t ↔ Step inFlow floor c r s t := by
  constructor
  · exact fun hstep => hstep.imp (fun ht => isText_append h ▸ ht) fun _ _ he => endsRows_append h ▸ he
  · exact fun hstep => hstep.imp (fun ht => (isText_append h).trans ht) fun _ _ he => (endsRows_append h).trans he

private theorem At.reach_append {inFlow : Bool} {floor passed kept : Nat} {s : At}
    (h : Sealed cs behind ∨ cs = [])
    (hn : s.reach inFlow floor (cs ++ behind) passed kept ≤ passed + cs.length) :
    s.reach inFlow floor cs passed kept = s.reach inFlow floor (cs ++ behind) passed kept := by
  induction cs generalizing s passed kept with
  | nil => exact ((s.reach_eq_or_lt behind passed kept).resolve_right (Nat.not_lt_of_le hn)).symm
  | cons c r ih =>
    have h := h.resolve_right (List.cons_ne_nil c r)
    rw [List.cons_append] at hn ⊢
    by_cases hstep : ∃ t, Step inFlow floor c r s t
    · obtain ⟨t, hstep⟩ := hstep
      rw [reach_of_step ((step_append_iff h).mpr hstep)] at hn ⊢
      rw [reach_of_step hstep]
      refine ih ?_ (by rwa [List.length_cons, Nat.add_comm r.length, ← Nat.add_assoc] at hn)
      rcases r with _ | ⟨d, r⟩
      · exact .inr rfl
      · exact .inl (h.tail (List.cons_ne_nil d r))
    · rw [reach_of_stop (not_exists.mp hstep), reach_of_stop fun t ht => hstep ⟨t, (step_append_iff h).mp ht⟩]

theorem length_append {inFlow : Bool} {floor column : Nat} (h : Sealed cs behind) (hcs : cs ≠ [])
    (hn : length inFlow floor column (cs ++ behind) ≤ cs.length) :
    length inFlow floor column cs = length inFlow floor column (cs ++ behind) := by
  obtain ⟨c, r, rfl⟩ := List.exists_cons_of_ne_nil hcs
  refine At.reach_append (s := ⟨false, true, column + 1⟩) ?_ (by rwa [List.length_cons, Nat.add_comm] at hn)
  rcases r with _ | ⟨d, r⟩
  · exact .inr rfl
  · exact .inl (h.tail (List.cons_ne_nil d r))

end Plain

/-! ### Quoted scalars -/

private theorem likeMarker_append {k : Nat} {r : List Char}
    (h : likeMarker (c :: (r ++ behind)) = k + 1)
    (hk : k ≤ r.length) : likeMarker (c :: r) = k + 1 := by
  simp only [likeMarker] at h ⊢
  split at h
  · rename_i hc
    rw [if_pos hc]
    rcases r with _ | ⟨d, _ | ⟨e, r⟩⟩
    · simp only [List.length_nil] at hk
      omega
    · simp only [List.length_cons, List.length_nil] at hk
      simp only [List.cons_append, List.nil_append, List.take_succ_cons, List.takeWhile_cons] at h ⊢
      split at h
      · rw [List.length_cons] at h
        omega
      · rename_i hd
        rw [if_neg hd]
        exact h
    · exact h
  · cases h

private theorem likeMarker_append_zero {r : List Char} (h : likeMarker (c :: (r ++ behind)) = 0) :
    likeMarker (c :: r) = 0 := by
  simp only [likeMarker] at h ⊢
  split at h
  · cases h
  · rw [if_neg ‹_›]

/-- What looks like a marker looks like one in the piece, if it ends there. -/
theorem likeMarker_append_of_le {r : List Char}
    (h : ∀ left, likeMarker (c :: (r ++ behind)) = left + 1 → left ≤ r.length) :
    likeMarker (c :: (r ++ behind)) = likeMarker (c :: r) := by
  cases hlike : likeMarker (c :: (r ++ behind)) with
  | zero => exact (likeMarker_append_zero hlike).symm
  | succ left => exact (likeMarker_append hlike (h left hlike)).symm

namespace Quoted
variable {style : Style} {floor : Nat} {rowStart : Bool} {mode : Mode}

private theorem Run.taken_lt {left : Nat} (h : Run style floor cs (.taken left) rowStart n) :
    left < n := by
  induction cs generalizing left rowStart n with
  | nil => cases h
  | cons c r ih =>
    cases h with
    | quote opens => cases opens
    | step step rest =>
      cases step with
      | fold folds => cases folds
      | taken =>
        split at rest
        · have := rest.pos
          omega
        · have := ih rest
          omega
      | piece opens => cases opens

private theorem ends_append {r : List Char} (hn : ends style c (r ++ behind) = true ∨ r ≠ []) :
    ends style c (r ++ behind) = ends style c r := by
  cases r with
  | cons d r => cases style <;> rfl
  | nil =>
    have hends := hn.resolve_right (fun h => h rfl)
    rw [hends]
    cases style with
    | double => exact hends.symm
    | single => simp_all [ends]

/-- A piece of the scalar begins in the same way, if it does not reach beyond the text's own piece. -/
private theorem begin_append {r : List Char} (h : Sealed (c :: r) behind)
    (hmode : begin style c (r ++ behind) rowStart = some mode)
    (hleft : ∀ left, mode = .taken left → left ≤ r.length) : begin style c r rowStart = some mode := by
  have hmarker := atDocumentMarker_append h (List.cons_ne_nil c r)
  rw [List.cons_append] at hmarker
  simp only [begin, hmarker] at hmode ⊢
  split_ifs at hmode ⊢ <;> try exact hmode
  · rwa [likeMarker_append_of_le fun left hlike => ?_] at hmode
    rw [hlike] at hmode
    cases hmode
    exact hleft left rfl

private theorem Run.of_append (h : Sealed cs behind ∨ cs = [])
    (hrun : Run style floor (cs ++ behind) mode rowStart n)
    (hn : n ≤ cs.length) : Run style floor cs mode rowStart n := by
  induction cs generalizing mode rowStart n with
  | nil => exact absurd hrun.pos (Nat.not_lt_of_le hn)
  | cons c r ih =>
    have hsealed := h.resolve_right (List.cons_ne_nil c r)
    rw [List.length_cons] at hn
    cases hrun with
    | quote opens ends => exact .quote opens ((ends_append (.inl ends)).symm.trans ends)
    | step step rest =>
      have hpos := rest.pos
      have hr : r ≠ [] := by
        rintro rfl
        rw [List.length_nil] at hn
        omega
      refine .step (step.imp fun opens more begins => ?_) (ih (.inl (hsealed.tail hr)) rest (by omega))
      refine .piece opens ((ends_append (.inr hr)).symm.trans more) (begin_append hsealed begins ?_)
      rintro left rfl
      have := rest.taken_lt
      omega

theorem length_append (h : Sealed cs behind) (hcs : cs ≠ [])
    (hlength : length style floor (cs ++ behind) = .ok n) (hn : n ≤ cs.length) :
    length style floor cs = .ok n := by
  obtain ⟨c, r, rfl⟩ := List.exists_cons_of_ne_nil hcs
  obtain ⟨m, rfl, hrun⟩ := length_eq_ok.mp hlength
  refine length_eq_ok.mpr ⟨m, rfl, hrun.of_append ?_ (by rw [List.length_cons, Nat.add_comm 1] at hn; omega)⟩
  rcases r with _ | ⟨d, r⟩
  · exact .inr rfl
  · exact .inl (h.tail (List.cons_ne_nil d r))

end Quoted

end YamlOutline.Syntax
