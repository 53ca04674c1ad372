import YamlOutline.Node.OfTree
import YamlOutline.Proofs.Text.Offset

/-! The leaves of concrete syntax trees. They stand in the source one behind the other, and what the
tree says of a node is a matter of its leaves: where its content begins and ends, and whether it has
any. -/

namespace YamlOutline.Syntax
open Text (IsBoundary size)
variable {cs : List Char} {lo hi mid : Nat}

namespace Tree

@[simp] theorem leaves_leaf (k : Kind) (s : Span) : leaves (.leaf k s) = [(k, s)] := by
  rw [leaves]

@[simp] theorem leaves_node (k : Kind) (ts : List Tree) : leaves (.node k ts) = leavesList ts := by
  rw [leaves]

@[simp] theorem leavesList_nil : leavesList [] = [] := by
  rw [leavesList]

@[simp] theorem leavesList_cons (t : Tree) (ts : List Tree) :
    leavesList (t :: ts) = leaves t ++ leavesList ts := by
  rw [leavesList]

@[simp] theorem leavesList_append (ts us : List Tree) :
    leavesList (ts ++ us) = leavesList ts ++ leavesList us := by
  induction ts with
  | nil => simp
  | cons t ts ih => simp [ih]

theorem mem_leavesList {l : Kind × Span} {ts : List Tree} :
    l ∈ leavesList ts ↔ ∃ t ∈ ts, l ∈ leaves t := by
  induction ts with
  | nil => simp
  | cons t ts ih => simp [ih]

/-! ### Parts -/

theorem self_mem_preorder (t : Tree) : t ∈ preorder t := by
  cases t <;> simp [preorder]

theorem mem_preorderList {t : Tree} {ts : List Tree} (h : t ∈ ts) : t ∈ preorderList ts := by
  induction ts with
  | nil => cases h
  | cons u us ih =>
    rw [preorderList, List.mem_append]
    rcases List.mem_cons.mp h with rfl | h
    · exact .inl (self_mem_preorder t)
    · exact .inr (ih h)

theorem mem_preorder_of_mem_children {t u : Tree} (h : t ∈ u.children) : t ∈ preorder u := by
  cases u with
  | leaf k s => cases h
  | node k ts =>
    rw [preorder]
    exact List.mem_cons_of_mem _ (mem_preorderList h)

mutual
/-- A part of a tree has some of its leaves, all that stand between the first and the last of them,
and its parts are parts of the tree. -/
theorem of_mem_preorder {t : Tree} : (u : Tree) → t ∈ preorder u →
    (∃ before after, leaves u = before ++ leaves t ++ after) ∧ preorder t ⊆ preorder u
  | .leaf k s, h => by
    rw [preorder, List.mem_singleton] at h
    subst h
    exact ⟨⟨[], [], by simp⟩, List.Subset.refl _⟩
  | .node k ts, h => by
    rw [preorder, List.mem_cons] at h
    rcases h with rfl | h
    · exact ⟨⟨[], [], by simp⟩, List.Subset.refl _⟩
    · obtain ⟨hl, hp⟩ := of_mem_preorderList ts h
      rw [leaves_node, preorder]
      exact ⟨hl, List.subset_cons_of_subset _ hp⟩

theorem of_mem_preorderList {t : Tree} : (us : List Tree) → t ∈ preorderList us →
    (∃ before after, leavesList us = before ++ leaves t ++ after) ∧ preorder t ⊆ preorderList us
  | [], h => by
    rw [preorderList] at h
    cases h
  | u :: us, h => by
    rw [preorderList, List.mem_append] at h
    rw [leavesList_cons, preorderList]
    rcases h with h | h
    · obtain ⟨⟨before, after, hl⟩, hp⟩ := of_mem_preorder u h
      exact ⟨⟨before, after ++ leavesList us, by simp [hl]⟩, List.subset_append_of_subset_left _ hp⟩
    · obtain ⟨⟨before, after, hl⟩, hp⟩ := of_mem_preorderList us h
      exact ⟨⟨leaves u ++ before, after, by simp [hl]⟩, List.subset_append_of_subset_right _ hp⟩
end

/-! ### Faults -/

@[simp] theorem hasFaultList_nil : hasFaultList [] = false := by
  rw [hasFaultList]

@[simp] theorem hasFaultList_cons (t : Tree) (ts : List Tree) :
    hasFaultList (t :: ts) = (hasFault t || hasFaultList ts) := by
  rw [hasFaultList]

@[simp] theorem hasFaultList_append (ts us : List Tree) :
    hasFaultList (ts ++ us) = (hasFaultList ts || hasFaultList us) := by
  induction ts with
  | nil => simp
  | cons t ts ih => simp [ih, Bool.or_assoc]

@[simp] theorem hasFault_leaf (k : Kind) (s : Span) : hasFault (.leaf k s) = isFault (.leaf k s) := by
  rw [hasFault]

@[simp] theorem hasFault_node (k : Kind) (ts : List Tree) :
    hasFault (.node k ts) = (isFault (.node k []) || hasFaultList ts) := by
  rw [hasFault]

mutual
/-- A tree has a fault exactly if one of its parts is one. -/
theorem hasFault_eq_any : (t : Tree) → hasFault t = (preorder t).any isFault
  | .leaf k s => by
    rw [hasFault, preorder, List.any_cons, List.any_nil, Bool.or_false]
  | .node k ts => by
    rw [hasFault, preorder, List.any_cons, hasFaultList_eq_any ts]
    rfl

theorem hasFaultList_eq_any : (ts : List Tree) → hasFaultList ts = (preorderList ts).any isFault
  | [] => by
    rw [hasFaultList, preorderList]
    rfl
  | t :: ts => by
    rw [hasFaultList, preorderList, List.any_append, hasFault_eq_any t, hasFaultList_eq_any ts]
end

/-- A tree without fault has none in its parts. -/
theorem hasFault_part {t : Tree} (u : Tree) (h : t ∈ preorder u) (hf : hasFault u = false) :
    hasFault t = false := by
  rw [hasFault_eq_any, List.any_eq_false] at hf ⊢
  exact fun v hv => hf v ((of_mem_preorder u h).2 hv)

end Tree

/-! ### Leaves in order -/

theorem lt_of_isToken {k : Kind} {s : Span} (h : Node.isToken k s = true) : s.start < s.stop := by
  simp only [Node.isToken, Bool.and_eq_true, decide_eq_true_eq] at h
  exact h.1.1

/-- Leaves that stand in the source one behind the other, none before `lo` and none beyond `hi`. -/
def Ordered (cs : List Char) (lo hi : Nat) : List (Kind × Span) → Prop
  | [] => lo ≤ hi
  | (_, s) :: ls =>
    lo ≤ s.start ∧ s.start ≤ s.stop ∧ IsBoundary cs s.start ∧ IsBoundary cs s.stop ∧
      Ordered cs s.stop hi ls

theorem Ordered.le {ls : List (Kind × Span)} (h : Ordered cs lo hi ls) : lo ≤ hi := by
  induction ls generalizing lo with
  | nil => exact h
  | cons l ls ih =>
    obtain ⟨hlo, hs, _, _, hls⟩ := h
    exact hlo.trans (hs.trans (ih hls))

theorem ordered_append_iff {ls ms : List (Kind × Span)} :
    Ordered cs lo hi (ls ++ ms) ↔ ∃ mid, Ordered cs lo mid ls ∧ Ordered cs mid hi ms := by
  induction ls generalizing lo with
  | nil =>
    constructor
    · intro h
      exact ⟨lo, Nat.le_refl lo, h⟩
    · rintro ⟨mid, hle, h⟩
      cases ms with
      | nil => exact Nat.le_trans hle h
      | cons m ms => exact ⟨Nat.le_trans hle h.1, h.2⟩
  | cons l ls ih =>
    constructor
    · rintro ⟨hlo, hs, hb, hb', h⟩
      obtain ⟨mid, hls, hms⟩ := ih.mp h
      exact ⟨mid, ⟨hlo, hs, hb, hb', hls⟩, hms⟩
    · rintro ⟨mid, ⟨hlo, hs, hb, hb', hls⟩, hms⟩
      exact ⟨hlo, hs, hb, hb', ih.mpr ⟨mid, hls, hms⟩⟩

theorem Ordered.append {ls ms : List (Kind × Span)} (h : Ordered cs lo mid ls)
    (h' : Ordered cs mid hi ms) : Ordered cs lo hi (ls ++ ms) :=
  ordered_append_iff.mpr ⟨mid, h, h'⟩

theorem Ordered.mono {ls : List (Kind × Span)} {lo' hi' : Nat} (h : Ordered cs lo hi ls)
    (hlo : lo' ≤ lo) (hhi : hi ≤ hi') : Ordered cs lo' hi' ls := by
  have hl : Ordered cs lo' lo [] := hlo
  have hr : Ordered cs hi hi' [] := hhi
  simpa using hl.append (h.append hr)

/-- Every leaf has its place. -/
theorem Ordered.of_mem {ls : List (Kind × Span)} (h : Ordered cs lo hi ls) {l : Kind × Span}
    (hl : l ∈ ls) : lo ≤ l.2.start ∧ l.2.start ≤ l.2.stop ∧ l.2.stop ≤ hi ∧
      IsBoundary cs l.2.start ∧ IsBoundary cs l.2.stop := by
  obtain ⟨before, after, rfl⟩ := List.append_of_mem hl
  obtain ⟨mid, hbefore, hlo, hs, hb, hb', hafter⟩ := ordered_append_iff.mp h
  exact ⟨hbefore.le.trans hlo, hs, hafter.le, hb, hb'⟩

theorem Ordered.apart {ls ms : List (Kind × Span)} (h : Ordered cs lo hi (ls ++ ms)) {l m : Kind × Span}
    (hl : l ∈ ls) (hm : m ∈ ms) : l.2.stop ≤ m.2.start := by
  obtain ⟨mid, hls, hms⟩ := ordered_append_iff.mp h
  exact (hls.of_mem hl).2.2.1.trans (hms.of_mem hm).1

/-- No two leaves have a character in common. -/
theorem Ordered.eq_of_overlap {ls : List (Kind × Span)} (h : Ordered cs lo hi ls) {l m : Kind × Span}
    (hl : l ∈ ls) (hm : m ∈ ls) {o : Nat} (hlo : l.2.start ≤ o ∧ o < l.2.stop)
    (hmo : m.2.start ≤ o ∧ o < m.2.stop) : l = m := by
  obtain ⟨before, after, rfl⟩ := List.append_of_mem hl
  rcases List.mem_append.mp hm with hbefore | hm
  · have := h.apart hbefore List.mem_cons_self
    omega
  rcases List.mem_cons.mp hm with rfl | hafter
  · rfl
  · rw [List.append_cons] at h
    have := h.apart (List.mem_append_right _ (List.mem_singleton_self l)) hafter
    omega

/-! ### Leaves without gaps -/

/-- The stretch is a comment: a number sign and what follows it in its row. -/
def IsComment (cs : List Char) (s : Span) : Prop :=
  ∃ r, Text.slice? cs s.start s.stop = some ('#' :: r) ∧ ∀ c ∈ r, isBreak c = false

/-- What stands in the source between two places is white space, or it belongs to one of the leaves.
The leaves that are comments are stretches of that form. -/
def Covers (cs : List Char) (lo hi : Nat) (ls : List (Kind × Span)) : Prop :=
  ∀ o c, Text.At cs o c → lo ≤ o → o < hi → Text.isBlank c = true ∨
    ∃ l ∈ ls, l.2.start ≤ o ∧ o < l.2.stop ∧ (l.1 = .comment → IsComment cs l.2)

section
variable {ls ms : List (Kind × Span)}

theorem Covers.of_le (h : hi ≤ lo) : Covers cs lo hi ls := by
  intro o c _ hlo hhi
  omega

theorem Covers.mono (h : Covers cs lo hi ls) (hsub : ls ⊆ ms) : Covers cs lo hi ms := by
  intro o c hat hlo hhi
  refine (h o c hat hlo hhi).imp_right ?_
  rintro ⟨l, hl, hplace⟩
  exact ⟨l, hsub hl, hplace⟩

theorem Covers.trans (h : Covers cs lo mid ls) (h' : Covers cs mid hi ls) : Covers cs lo hi ls := by
  intro o c hat hlo hhi
  by_cases hmid : o < mid
  · exact h o c hat hlo hmid
  · exact h' o c hat (Nat.le_of_not_lt hmid) hhi

theorem Covers.append (h : Covers cs lo mid ls) (h' : Covers cs mid hi ms) :
    Covers cs lo hi (ls ++ ms) :=
  (h.mono (List.subset_append_left _ _)).trans (h'.mono (List.subset_append_right _ _))

/-- A leaf covers itself. -/
theorem Covers.leaf {k : Kind} {s : Span} (h : k = .comment → IsComment cs s) :
    Covers cs s.start s.stop [(k, s)] :=
  fun _ _ _ hlo hhi => .inr ⟨_, List.mem_singleton_self _, hlo, hhi, h⟩

theorem Covers.content {k : Kind} {s : Span} (hk : k ≠ .comment) :
    Covers cs s.start s.stop [(k, s)] :=
  .leaf fun h => absurd h hk

end

end YamlOutline.Syntax
