import YamlOutline.Proofs.Outline.Nesting
import YamlOutline.Proofs.Syntax.Documents

/-! The tree that a node or an entry comes from. The parts of a node come from parts of its tree, one
level below it, and the span of each is that of the content of its tree. -/

namespace YamlOutline

open Syntax (Span Tree Kind isBody)

variable {cs : List Char}

namespace Node

/-- The tree that a node comes from: its content without the wrapper around it, which is a token or
has parts, a pair in a sequence in brackets, which is a mapping of its own, or the place of an item
without content. -/
inductive LoweredFrom (cs : List Char) : Tree → Node → Prop where
  | token {k : Kind} {s : Span} {n : Node} {depth : Nat} (content : isAside k = false)
    (read : ofTree? cs depth (.leaf k s) = some n) : LoweredFrom cs (.leaf k s) n
  | body {k : Kind} {parts : List Tree} {n : Node} {depth : Nat} (content : isBody k = true)
    (read : ofTree? cs depth (.node k parts) = some n) : LoweredFrom cs (.node k parts) n
  | pair {parts : List Tree} {n : Node} {depth : Nat}
    (read : itemsOf cs depth [.node .flowPair parts] = [n]) : LoweredFrom cs (.node .flowPair parts) n
  | empty {k : Kind} {parts : List Tree} {depth : Nat} (other : k ≠ .flowPair)
    (read : inside? cs depth parts = none) :
    LoweredFrom cs (.node k parts) (.null (contentSpan cs (.node k parts)))

/-- Whether a tree is content as it stands: no wrapper, no item and nothing beside the content of one. -/
def isContent : Tree → Bool
  | .leaf k _ => !isAside k
  | .node k _ => isBody k

/-- The tree that becomes the node on the given level. -/
structure ReadAt (cs : List Char) (level : Nat) (t : Tree) (n : Node) : Prop where
  content : isContent t = true
  read : ofTree? cs level t = some n

/-- The tree that a node on the given level comes from. -/
inductive LoweredAt (cs : List Char) : Nat → Tree → Node → Prop where
  | read {level : Nat} {t : Tree} {n : Node} (h : n.ReadAt cs level t) : LoweredAt cs level t n
  | pair {level : Nat} {parts : List Tree} {n : Node}
    (read : itemsOf cs level [.node .flowPair parts] = [n]) :
    LoweredAt cs (level + 1) (.node .flowPair parts) n
  | empty {level : Nat} {k : Kind} {parts : List Tree} (other : k ≠ .flowPair)
    (read : inside? cs level parts = none) :
    LoweredAt cs level (.node k parts) (.null (contentSpan cs (.node k parts)))

end Node

/-- The tree that an entry comes from: a pair, or a key alone in brackets. -/
def Entry.LoweredFrom (cs : List Char) (t : Tree) (e : Entry) : Prop :=
  ∃ depth, Node.entriesOf cs depth [t] = [e]

namespace Node
variable {t : Tree} {ts parts : List Tree} {k : Kind} {n m v : Node} {e : Entry} {depth level : Nat}

/-- What a tree with parts becomes, if it is no wrapper. -/
private theorem ofTree?_body (hk : isBody k = true)
    (h : ofTree? cs depth (.node k parts) = some n) :
    n.span = contentSpan cs (.node k parts) ∧ n.entries ⊆ entriesOf cs depth parts ∧
      n.items ⊆ itemsOf cs depth parts := by
  obtain ⟨-, hwrapper, hitem⟩ := Syntax.isBody_iff.mp hk
  have hinside : ¬(isWrapper k || k == .blockSequenceItem) = true := by simp [hwrapper, hitem]
  rw [ofTree?, if_neg hinside] at h
  split at h
  · cases h
    exact ⟨rfl, List.nil_subset _, List.nil_subset _⟩
  split at h <;> cases h
  · exact ⟨rfl, List.Subset.refl _, List.nil_subset _⟩
  · exact ⟨rfl, List.Subset.refl _, List.nil_subset _⟩
  · exact ⟨rfl, List.nil_subset _, List.Subset.refl _⟩
  · exact ⟨rfl, List.nil_subset _, List.Subset.refl _⟩
  · exact ⟨rfl, List.nil_subset _, List.nil_subset _⟩

private theorem ofTree?_leaf {s : Span} (h : ofTree? cs depth (.leaf k s) = some n) :
    n.span = contentSpan cs (.leaf k s) ∧ n.entries = [] ∧ n.items = [] := by
  rw [ofTree?] at h
  split at h <;> cases h <;> exact ⟨rfl, rfl, rfl⟩

theorem LoweredFrom.span_eq (h : n.LoweredFrom cs t) : n.span = contentSpan cs t := by
  cases h with
  | token content read => exact (ofTree?_leaf read).1
  | body content read => exact (ofTree?_body content read).1
  | pair read =>
    rw [itemsOf, itemsOf] at read
    cases read
    rfl
  | empty other read => rfl

theorem span_eq_of_entry (h : e.LoweredFrom cs t) : e.span = contentSpan cs t := by
  obtain ⟨depth, h⟩ := h
  cases t with
  | leaf k s =>
    rw [entriesOf, entriesOf] at h
    cases h
  | node k parts =>
    rw [entriesOf, entriesOf] at h
    split at h
    · split at h <;> cases h <;> rfl
    split at h <;> cases h
    rfl

mutual
theorem ofTree?_readAt : (t : Tree) → {n : Node} → ofTree? cs depth t = some n →
    isAside t.kind = false → ∃ u ∈ t.preorder, n.ReadAt cs depth u
  | .leaf k s, n, h, hk => by
    have hk : isAside k = false := hk
    exact ⟨_, Tree.self_mem_preorder _, by simp [isContent, hk], h⟩
  | .node k parts, n, h, hk => by
    by_cases hinside : (isWrapper k || k == .blockSequenceItem) = true
    · rw [ofTree?, if_pos hinside] at h
      obtain ⟨u, hu, hn⟩ := inside?_readAt parts h
      rw [Tree.preorder]
      exact ⟨u, List.mem_cons_of_mem _ hu, hn⟩
    · have hbody : isBody k = true := by
        have hk : isAside k = false := hk
        simpa [isBody, hk] using hinside
      exact ⟨_, Tree.self_mem_preorder _, hbody, h⟩

theorem inside?_readAt : (ts : List Tree) → {n : Node} → inside? cs depth ts = some n →
    ∃ u ∈ Tree.preorderList ts, n.ReadAt cs depth u
  | [], _, h => by
    rw [inside?] at h
    cases h
  | t :: ts, n, h => by
    rw [inside?] at h
    rw [Tree.preorderList]
    split at h
    · obtain ⟨u, hu, hn⟩ := inside?_readAt ts h
      exact ⟨u, List.mem_append_right _ hu, hn⟩
    · rename_i hk
      obtain ⟨u, hu, hn⟩ := ofTree?_readAt t h (by simpa using hk)
      exact ⟨u, List.mem_append_left _ hu, hn⟩
end

private theorem isAside_of_isWrapper (h : isWrapper k = true) : isAside k = false := by
  cases k <;> first | rfl | cases h

private theorem valueOf?_readAt {pastColon : Bool} (h : valueOf? cs depth pastColon ts = some n) :
    ∃ u ∈ Tree.preorderList ts, n.ReadAt cs depth u := by
  induction ts generalizing pastColon with
  | nil =>
    rw [valueOf?] at h
    cases h
  | cons t ts ih =>
    rw [valueOf?] at h
    rw [Tree.preorderList]
    split at h
    · rename_i hk
      obtain ⟨u, hu, hn⟩ :=
        ofTree?_readAt t h (isAside_of_isWrapper (Bool.and_eq_true_iff.mp hk).2)
      exact ⟨u, List.mem_append_left _ hu, hn⟩
    · obtain ⟨u, hu, hn⟩ := ih h
      exact ⟨u, List.mem_append_right _ hu, hn⟩

/-- Where each part gives at most one element, every element is what some part gives. -/
private theorem exists_part {α : Type} {f : List Tree → List α} {x : α} (hnil : f [] = [])
    (hcons : ∀ t ts, f (t :: ts) = f [t] ++ f ts) (hone : ∀ t, f [t] = [] ∨ ∃ x, f [t] = [x])
    (h : x ∈ f ts) : ∃ t ∈ ts, f [t] = [x] := by
  induction ts with
  | nil =>
    rw [hnil] at h
    cases h
  | cons t ts ih =>
    rw [hcons] at h
    rcases List.mem_append.mp h with h | h
    · obtain hnone | ⟨y, hy⟩ := hone t
      · rw [hnone] at h
        cases h
      · rw [hy] at h
        exact ⟨t, List.mem_cons_self, by rw [hy, List.mem_singleton.mp h]⟩
    · obtain ⟨u, hu, hx⟩ := ih h
      exact ⟨u, List.mem_cons_of_mem t hu, hx⟩

private theorem exists_entryPart (h : e ∈ entriesOf cs depth ts) :
    ∃ t ∈ ts, entriesOf cs depth [t] = [e] := by
  refine exists_part (by rw [entriesOf]) (fun t ts => ?_) (fun t => ?_) h
  · cases t with
    | leaf k s => simp only [entriesOf, List.nil_append]
    | node k parts =>
      simp only [entriesOf]
      split <;> split <;> simp
  · cases t with
    | leaf k s => exact .inl (by simp only [entriesOf])
    | node k parts =>
      simp only [entriesOf]
      split <;> split <;> simp

private theorem itemsOf_cons (t : Tree) (ts : List Tree) :
    itemsOf cs depth (t :: ts) = itemsOf cs depth [t] ++ itemsOf cs depth ts := by
  cases t with
  | leaf k s => simp only [itemsOf, List.nil_append]
  | node k parts =>
    simp only [itemsOf]
    split <;> simp

private theorem exists_itemPart (h : m ∈ itemsOf cs depth ts) :
    ∃ t ∈ ts, itemsOf cs depth [t] = [m] := by
  refine exists_part (by rw [itemsOf]) itemsOf_cons (fun t => ?_) h
  cases t with
  | leaf k s => exact .inl (by simp only [itemsOf])
  | node k parts =>
    simp only [itemsOf]
    split <;> simp

theorem mem_itemsOf (ht : t ∈ ts) (h : itemsOf cs depth [t] = [m]) : m ∈ itemsOf cs depth ts := by
  induction ht with
  | head ts =>
    rw [itemsOf_cons, h]
    exact List.mem_cons_self
  | tail u _ ih =>
    rw [itemsOf_cons]
    exact List.mem_append_right _ ih

/-- An item is read from the content of its part, unless this is a pair or has no content. -/
theorem item_cases (h : itemsOf cs level [t] = [m]) : (∃ parts, t = .node .flowPair parts) ∨
    (∃ u ∈ t.preorder, m.ReadAt cs (level + 1) u) ∨
    ∃ k parts, t = .node k parts ∧ k ≠ .flowPair ∧ inside? cs (level + 1) parts = none ∧
      m = .null (contentSpan cs t) := by
  cases t with
  | leaf k s =>
    rw [itemsOf, itemsOf] at h
    cases h
  | node k parts =>
    by_cases hk : k = .flowPair
    · exact .inl ⟨parts, by rw [hk]⟩
    rw [itemsOf, itemsOf] at h
    simp only [beq_iff_eq, hk, if_false] at h
    cases hin : inside? cs (level + 1) parts with
    | none =>
      rw [hin] at h
      cases h
      exact .inr (.inr ⟨k, parts, rfl, hk, hin, rfl⟩)
    | some n =>
      rw [hin] at h
      cases h
      obtain ⟨u, hu, hn⟩ := inside?_readAt parts hin
      rw [Tree.preorder]
      exact .inr (.inl ⟨u, List.mem_cons_of_mem _ hu, hn⟩)

private theorem item_loweredAt (h : itemsOf cs level [t] = [m]) :
    ∃ u ∈ t.preorder, m.LoweredAt cs (level + 1) u := by
  obtain ⟨parts, rfl⟩ | ⟨u, hu, hread⟩ | ⟨k, parts, rfl, hk, hin, rfl⟩ := item_cases h
  · exact ⟨_, Tree.self_mem_preorder _, .pair h⟩
  · exact ⟨u, hu, .read hread⟩
  · exact ⟨_, Tree.self_mem_preorder _, .empty hk hin⟩

private theorem value_readAt (h : entriesOf cs level [t] = [e]) (hv : e.value? = some v) :
    ∃ u ∈ t.preorder, v.ReadAt cs (level + 1) u := by
  cases t with
  | leaf k s =>
    rw [entriesOf, entriesOf] at h
    cases h
  | node k parts =>
    rw [entriesOf, entriesOf] at h
    split at h
    · split at h <;> cases h
      · rename_i w hw
        obtain rfl : w = v := Option.some.inj hv
        obtain ⟨u, hu, hn⟩ := valueOf?_readAt hw
        rw [Tree.preorder]
        exact ⟨u, List.mem_cons_of_mem _ hu, hn⟩
      · cases hv
    split at h <;> cases h
    cases hv

/-- What is read has its entries and items from the parts of its tree. -/
private theorem ReadAt.made_of_parts (h : n.ReadAt cs level t) :
    n.entries ⊆ entriesOf cs level t.children ∧ n.items ⊆ itemsOf cs level t.children := by
  cases t with
  | leaf k s =>
    obtain ⟨-, hentries, hitems⟩ := ofTree?_leaf h.read
    rw [hentries, hitems]
    exact ⟨List.nil_subset _, List.nil_subset _⟩
  | node k parts => exact (ofTree?_body h.content h.read).2

/-- The entries of a node come from parts of its tree. -/
private theorem LoweredAt.entry (h : n.LoweredAt cs level t) (he : e ∈ n.entries) :
    ∃ u ∈ t.preorder, entriesOf cs level [u] = [e] := by
  cases h with
  | read h =>
    obtain ⟨u, hu, hlow⟩ := exists_entryPart (h.made_of_parts.1 he)
    exact ⟨u, Tree.mem_preorder_of_mem_children hu, hlow⟩
  | @pair level parts _ read =>
    rw [itemsOf, itemsOf] at read
    cases read
    obtain rfl := List.mem_singleton.mp he
    refine ⟨_, Tree.self_mem_preorder _, ?_⟩
    rw [entriesOf, entriesOf]
    cases valueOf? cs (level + 2) false parts <;> rfl
  | empty other read => cases he

/-- The items of a node come from parts of the tree that it is read from. -/
theorem LoweredAt.item (h : n.LoweredAt cs level t) (hm : m ∈ n.items) :
    n.ReadAt cs level t ∧ ∃ u ∈ t.children, itemsOf cs level [u] = [m] := by
  cases h with
  | read h => exact ⟨h, exists_itemPart (h.made_of_parts.2 hm)⟩
  | pair read =>
    rw [itemsOf, itemsOf] at read
    cases read
    cases hm
  | empty other read => cases hm

theorem LoweredAt.value (h : n.LoweredAt cs level t) (he : e ∈ n.entries) (hv : e.value? = some v) :
    ∃ u ∈ t.preorder, v.ReadAt cs (level + 1) u := by
  obtain ⟨w, hw, hentry⟩ := h.entry he
  obtain ⟨u, hu, hread⟩ := value_readAt hentry hv
  exact ⟨u, (Tree.of_mem_preorder _ hw).2 hu, hread⟩

/-- What stands directly inside a node comes from a part of its tree, one level further down. -/
theorem LoweredAt.part (h : n.LoweredAt cs level t) (hm : m ∈ n.parts) :
    ∃ u ∈ t.preorder, m.LoweredAt cs (level + 1) u := by
  cases n with
  | mapping span es =>
    obtain ⟨e, he, hv⟩ := List.mem_filterMap.mp hm
    obtain ⟨u, hu, hread⟩ := h.value he hv
    exact ⟨u, hu, .read hread⟩
  | sequence span ns =>
    obtain ⟨-, w, hw, hitem⟩ := h.item hm
    obtain ⟨u, hu, hlow⟩ := item_loweredAt hitem
    exact ⟨u, (Tree.of_mem_preorder _ (Tree.mem_preorder_of_mem_children hw)).2 hu, hlow⟩
  | scalar span value | null span => cases hm

/-- A node that comes from a tree does so on some level. -/
private theorem loweredFrom_iff : n.LoweredFrom cs t ↔ ∃ level, n.LoweredAt cs level t := by
  constructor
  · intro h
    cases h with
    | token content read => exact ⟨_, .read ⟨by simp [isContent, content], read⟩⟩
    | body content read => exact ⟨_, .read ⟨content, read⟩⟩
    | pair read => exact ⟨_, .pair read⟩
    | empty other read => exact ⟨_, .empty other read⟩
  · rintro ⟨level, h⟩
    cases h with
    | read h =>
      cases t with
      | leaf k s => exact .token (by simpa [isContent] using h.content) h.read
      | node k parts => exact .body h.content h.read
    | pair read => exact .pair read
    | empty other read => exact .empty other read

theorem LoweredFrom.entry (h : n.LoweredFrom cs t) (he : e ∈ n.entries) :
    ∃ u ∈ t.preorder, e.LoweredFrom cs u := by
  obtain ⟨level, h⟩ := loweredFrom_iff.mp h
  obtain ⟨u, hu, hentry⟩ := h.entry he
  exact ⟨u, hu, level, hentry⟩

/-- Whatever a node holds comes from a part of its tree. -/
theorem LoweredFrom.holds (h : n.LoweredFrom cs t) (hm : n.Holds m) : ∃ u ∈ t.preorder, m.LoweredFrom cs u := by
  induction hm with
  | refl => exact ⟨t, Tree.self_mem_preorder t, h⟩
  | @tail a b _ hb ih =>
    obtain ⟨u, hu, ha⟩ := ih
    obtain ⟨level, ha⟩ := loweredFrom_iff.mp ha
    obtain ⟨w, hw, hlow⟩ := ha.part hb
    exact ⟨w, (Tree.of_mem_preorder _ hu).2 hw, loweredFrom_iff.mpr ⟨_, hlow⟩⟩

theorem LoweredFrom.content_leaves (h : n.LoweredFrom cs t) (hg : Syntax.Genuine cs t) : Content t.leaves := by
  cases h with
  | token content read =>
    rw [Tree.leaves_leaf]
    exact content_of_leaf hg content
  | body content read =>
    rw [Tree.leaves_node]
    exact content_of_genuine hg
  | pair read =>
    rw [Tree.leaves_node]
    exact content_of_genuine hg
  | empty other read =>
    rw [Tree.leaves_node]
    exact content_of_genuine hg

theorem content_of_entry (h : e.LoweredFrom cs t) (hg : Syntax.Genuine cs t) : Content t.leaves := by
  obtain ⟨depth, h⟩ := h
  cases t with
  | leaf k s =>
    rw [entriesOf, entriesOf] at h
    cases h
  | node k parts =>
    rw [Tree.leaves_node]
    exact content_of_genuine hg

end Node

end YamlOutline
