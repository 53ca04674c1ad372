import YamlOutline.Proofs.Node.Ends
import YamlOutline.Proofs.Reparse.Nested

/-! How far down the mappings and sequences of a document go. From the limit on a node is taken as its
source text, whatever it is read from. A pair in a sequence in brackets is no node of the concrete
syntax but becomes a mapping, and its level is not compared with the limit. -/

namespace YamlOutline
open Syntax (Span Tree Kind)

variable {cs : List Char} {n m : Node} {t : Tree} {depth k : Nat}

namespace Node

/-- The nodes that stand `k` levels below `n`. -/
def level (n : Node) : Nat → List Node
  | 0 => [n]
  | k + 1 => (n.level k).flatMap parts

private theorem level_succ (n : Node) (k : Nat) :
    n.level (k + 1) = n.parts.flatMap (level · k) := by
  induction k with
  | zero => simp [level]
  | succ k ih =>
    rw [level, ih, List.flatMap_assoc]
    rfl

/-- A node without structure: a place without content, or the source text of a tree. -/
def IsFlat (cs : List Char) (n : Node) : Prop :=
  (∃ span, n = .null span) ∨ ∃ t ∈ syntaxParts cs, n = verbatim cs t

/-- A mapping with one entry, read from a pair that is an item. -/
def IsSinglePair (cs : List Char) (n : Node) : Prop :=
  ∃ e, n = .mapping e.span [e] ∧ ∃ t ∈ syntaxParts cs, t.kind = .flowPair ∧ e.LoweredFrom cs t

/-- A sequence read from a tree with a pair among its items. -/
def HasPairItem (cs : List Char) (depth : Nat) (n : Node) : Prop :=
  (∃ span items, n = .sequence span items) ∧ ∃ t ∈ syntaxParts cs, n.ReadAt cs depth t ∧
    ∃ parts, .node .flowPair parts ∈ t.children

private theorem IsFlat.isContainer (h : n.IsFlat cs) : n.isContainer = false := by
  obtain ⟨span, rfl⟩ | ⟨t, -, rfl⟩ := h <;> rfl

/-- A pair that is an item becomes a mapping, on whatever level. -/
private theorem itemsOf_pair (cs : List Char) (depth : Nat) (parts : List Tree) : ∃ e : Entry,
    itemsOf cs depth [.node .flowPair parts] = [.mapping e.span [e]] ∧ e.LoweredFrom cs (.node .flowPair parts) := by
  rw [itemsOf, itemsOf]
  cases hvalue : valueOf? cs (depth + 2) false parts with
  | some value =>
    refine ⟨.pair (contentSpan cs (.node .flowPair parts)) (pairKey cs parts) value, by simp [Entry.span],
      depth + 1, ?_⟩
    rw [entriesOf, entriesOf, hvalue]
    rfl
  | none =>
    refine ⟨.bare (contentSpan cs (.node .flowPair parts)) (pairKey cs parts), by simp [Entry.span], depth + 1, ?_⟩
    rw [entriesOf, entriesOf, hvalue]
    rfl

/-! ### Brackets inside brackets -/

private theorem ofTree?_flowSequence (ts : List Tree) (hdepth : depth < maxDepth) :
    ofTree? cs depth (.node .flowSequence ts) =
      some (.sequence (contentSpan cs (.node .flowSequence ts)) (itemsOf cs depth ts)) := by
  rw [ofTree?, if_neg (by decide), if_neg (Nat.not_le_of_lt hdepth)]

private theorem exists_ofTree?_flowSequence (cs : List Char) (depth : Nat) (ts : List Tree) :
    ∃ n, ofTree? cs depth (.node .flowSequence ts) = some n := by
  by_cases hdepth : maxDepth ≤ depth
  · exact ⟨_, by rw [ofTree?, if_neg (by decide), if_pos hdepth]⟩
  · exact ⟨_, ofTree?_flowSequence ts (Nat.lt_of_not_le hdepth)⟩

/-- Sequences around a pair have nodes down to the limit, and the pair is a mapping up to there. -/
private theorem exists_level_of_isNested {count : Nat} (h : Syntax.IsNested count t)
    (hk : k ≤ count + 1)
    (hlimit : depth + k ≤ maxDepth) : ∃ root, ofTree? cs depth t = some root ∧
      ∃ m ∈ root.level k, k = count + 1 → m.isContainer = true := by
  induction h generalizing depth k with
  | pair first last key colon value =>
    cases k with
    | zero =>
      obtain ⟨root, hroot⟩ := exists_ofTree?_flowSequence cs depth _
      exact ⟨root, hroot, root, List.mem_singleton_self root, nofun⟩
    | succ k =>
      obtain rfl : k = 0 := by omega
      obtain ⟨e, he, -⟩ := itemsOf_pair cs depth _
      refine ⟨_, ofTree?_flowSequence _ (by omega), .mapping e.span [e], ?_, fun _ => rfl⟩
      rw [level_succ]
      exact List.mem_flatMap.mpr ⟨_, mem_itemsOf (List.mem_cons_of_mem _ List.mem_cons_self) he,
        List.mem_singleton_self _⟩
  | @item count t first last h ih =>
    cases k with
    | zero =>
      obtain ⟨root, hroot⟩ := exists_ofTree?_flowSequence cs depth _
      exact ⟨root, hroot, root, List.mem_singleton_self root, nofun⟩
    | succ k =>
      have hbelow : depth + 1 + k ≤ maxDepth := by omega
      obtain ⟨root, hroot, m, hm, hcontainer⟩ := ih (Nat.le_of_succ_le_succ hk) hbelow
      have hitem : itemsOf cs depth [.node .flowNode [t]] = [root] := by
        rw [itemsOf, itemsOf, if_neg (by decide), inside?, if_neg (by simp [h.kind, isAside]), hroot, Option.getD_some]
      refine ⟨_, ofTree?_flowSequence _ (by omega), m, ?_, fun hk => hcontainer (by omega)⟩
      rw [level_succ]
      exact List.mem_flatMap.mpr ⟨root, mem_itemsOf (by simp) hitem, hm⟩

/-! ### At the limit -/

private theorem ReadAt.eq_verbatim (h : n.ReadAt cs depth t) (hlimit : maxDepth ≤ depth) :
    n = verbatim cs t := by
  have hread := h.read
  cases t with
  | leaf k s =>
    rw [ofTree?, if_pos hlimit] at hread
    exact (Option.some.inj hread).symm
  | node k parts =>
    obtain ⟨-, hwrapper, hitem⟩ := Syntax.isBody_iff.mp h.content
    rw [ofTree?, if_neg (by simp [hwrapper, hitem]), if_pos hlimit] at hread
    exact (Option.some.inj hread).symm

private theorem ReadAt.isFlat (h : n.ReadAt cs depth t) (ht : t ∈ syntaxParts cs)
    (hlimit : maxDepth ≤ depth) :
    n.IsFlat cs :=
  .inr ⟨t, ht, h.eq_verbatim hlimit⟩

/-- A sequence is read above the limit, and its items are those of the parts of its tree. -/
private theorem ReadAt.sequence {span : Span} {items : List Node}
    (h : (Node.sequence span items).ReadAt cs depth t) :
    depth < maxDepth ∧ items = itemsOf cs depth t.children := by
  have hdepth : depth < maxDepth := by
    by_contra hlimit
    cases h.eq_verbatim (Nat.le_of_not_lt hlimit)
  refine ⟨hdepth, ?_⟩
  have hread := h.read
  cases t with
  | leaf k s =>
    rw [ofTree?, if_neg (Nat.not_le_of_lt hdepth)] at hread
    cases hread
  | node k parts =>
    obtain ⟨-, hwrapper, hitem⟩ := Syntax.isBody_iff.mp h.content
    rw [ofTree?, if_neg (by simp [hwrapper, hitem]), if_neg (Nat.not_le_of_lt hdepth)] at hread
    split at hread <;> cases hread <;> rfl

/-- What one step down into a node can lead to from the limit on. -/
private theorem LoweredAt.part_at_limit (h : n.LoweredAt cs depth t) (ht : t ∈ syntaxParts cs)
    (hm : m ∈ n.parts)
    (hlimit : maxDepth ≤ depth + 1) :
    m.IsFlat cs ∨ depth + 1 = maxDepth ∧ m.IsSinglePair cs ∧ n.HasPairItem cs depth := by
  have hparts {u : Tree} (hu : u ∈ t.preorder) : u ∈ syntaxParts cs := (Tree.of_mem_preorderList _ ht).2 hu
  cases n with
  | mapping span es =>
    obtain ⟨e, he, hv⟩ := List.mem_filterMap.mp hm
    obtain ⟨u, hu, hread⟩ := h.value he hv
    exact .inl (hread.isFlat (hparts hu) hlimit)
  | sequence span ns =>
    obtain ⟨hread, w, hw, hitem⟩ := h.item hm
    have hwt : w ∈ t.preorder := Tree.mem_preorder_of_mem_children hw
    obtain ⟨parts, rfl⟩ | ⟨u, hu, hitem⟩ | ⟨k, parts, rfl, -, -, rfl⟩ := item_cases hitem
    · obtain ⟨e, he, hlow⟩ := itemsOf_pair cs depth parts
      obtain rfl : .mapping e.span [e] = m := by simpa [he] using hitem
      have hdepth := hread.sequence.1
      exact .inr ⟨by omega, ⟨e, rfl, _, hparts hwt, rfl, hlow⟩, ⟨span, ns, rfl⟩, t, ht, hread, parts, hw⟩
    · exact .inl (hitem.isFlat (hparts ((Tree.of_mem_preorder _ hwt).2 hu)) hlimit)
    · exact .inl (.inl ⟨_, rfl⟩)
  | scalar span value | null span => cases hm

/-- A pair among the items of a sequence is a container one level below it. -/
private theorem HasPairItem.exists_container (h : n.HasPairItem cs depth) :
    ∃ m ∈ n.parts, m.isContainer = true := by
  obtain ⟨⟨span, items, rfl⟩, t, -, hread, parts, hpair⟩ := h
  obtain ⟨e, he, -⟩ := itemsOf_pair cs depth parts
  refine ⟨.mapping e.span [e], ?_, rfl⟩
  rw [Node.parts, hread.sequence.2]
  exact mem_itemsOf hpair he

end Node

open Node (maxDepth syntaxParts)

namespace Reads
variable {root : Node} {ts : List Tree} {d : Tree} {start stop : Nat}

private theorem root_readAt (h : Reads cs root ts d start stop) :
    ∃ t ∈ syntaxParts cs, root.ReadAt cs 0 t := by
  obtain ⟨w, hw, hn⟩ := Option.bind_eq_some_iff.mp h.body
  have hk : Node.isAside w.kind = false := by
    have hw := List.find?_some hw
    simp only [Bool.or_eq_true, beq_iff_eq] at hw
    rcases hw with hw | hw <;> rw [hw] <;> rfl
  obtain ⟨u, hu, hread⟩ := Node.ofTree?_readAt w hn hk
  refine ⟨u, ?_, hread⟩
  have hd : d ∈ syntaxParts cs := h.parts_eq ▸ List.mem_of_find?_eq_some h.first
  have hwd : w ∈ d.preorder := Tree.mem_preorder_of_mem_children (List.mem_of_find?_eq_some hw)
  exact (Tree.of_mem_preorderList _ hd).2 ((Tree.of_mem_preorder _ hwd).2 hu)

/-- A node `k` levels below the root comes from a tree on that level. -/
private theorem level_loweredAt (h : Reads cs root ts d start stop) (hm : m ∈ root.level k) :
    ∃ t ∈ syntaxParts cs, m.LoweredAt cs k t := by
  induction k generalizing m with
  | zero =>
    obtain rfl := List.mem_singleton.mp hm
    obtain ⟨t, ht, hread⟩ := h.root_readAt
    exact ⟨t, ht, .read hread⟩
  | succ k ih =>
    obtain ⟨p, hp, hm⟩ := List.mem_flatMap.mp hm
    obtain ⟨t, ht, hlow⟩ := ih hp
    obtain ⟨u, hu, hlow⟩ := hlow.part hm
    exact ⟨u, (Tree.of_mem_preorderList _ ht).2 hu, hlow⟩

/-- What stands from the limit on, and what the pairs among it are items of. -/
private theorem level_at_limit (h : Reads cs root ts d start stop) (hlimit : maxDepth ≤ k)
    (hm : m ∈ root.level k) :
    m.IsFlat cs ∨ k = maxDepth ∧ m.IsSinglePair cs ∧
      ∃ s ∈ root.level (maxDepth - 1), s.HasPairItem cs (maxDepth - 1) := by
  cases k with
  | zero => cases hlimit
  | succ k =>
    obtain ⟨p, hp, hm⟩ := List.mem_flatMap.mp hm
    obtain ⟨t, ht, hlow⟩ := h.level_loweredAt hp
    refine (hlow.part_at_limit ht hm hlimit).imp_right ?_
    rintro ⟨hk, hpair, hitem⟩
    rw [← hk]
    exact ⟨rfl, hpair, p, hp, hitem⟩

end Reads

/-- From the limit on there is nothing but source text and empty places, pairs that are items of a
sequence right above the limit apart. -/
theorem parse_stops_at_limit {text : String} {root : Node} (h : parse text = .ok (some root)) :
    (∀ k m, maxDepth ≤ k → m ∈ root.level k →
      m.IsFlat text.toList ∨ k = maxDepth ∧ m.IsSinglePair text.toList) ∧
    ((∀ k m, maxDepth ≤ k → m ∈ root.level k → m.isContainer = false) ↔
      ∀ s ∈ root.level (maxDepth - 1), ¬s.HasPairItem text.toList (maxDepth - 1)) := by
  obtain ⟨ts, d, start, stop, hreads⟩ := reads_of_parse h
  refine ⟨fun k m hk hm => (hreads.level_at_limit hk hm).imp_right fun h => ⟨h.1, h.2.1⟩, ?_, ?_⟩
  · intro hnone s hs hitem
    obtain ⟨m, hm, hcontainer⟩ := hitem.exists_container
    rw [hnone maxDepth m (Nat.le_refl _) (List.mem_flatMap.mpr ⟨s, hs, hm⟩)] at hcontainer
    cases hcontainer
  · intro hnone k m hk hm
    obtain hflat | ⟨-, -, s, hs, hitem⟩ := hreads.level_at_limit hk hm
    · exact hflat.isContainer
    · exact absurd hitem (hnone s hs)

theorem parse_stops_in_nested : ∃ root, parse (.ofList (Syntax.nested maxDepth)) = .ok (some root) ∧
    ∃ m ∈ root.level maxDepth, m.IsFlat (Syntax.nested maxDepth) ∨ m.IsSinglePair (Syntax.nested maxDepth) := by
  obtain ⟨x, hparse, hx⟩ := parse_nested maxDepth
  obtain ⟨root, hroot, m, hm, -⟩ :=
    Node.exists_level_of_isNested hx (Nat.le_succ maxDepth) (Nat.zero_add maxDepth).le
  rw [hroot] at hparse
  obtain ⟨hlimit, -⟩ := parse_stops_at_limit hparse
  rw [String.toList_ofList] at hlimit
  exact ⟨root, hparse, m, hm, (hlimit maxDepth m (Nat.le_refl _) hm).imp_right And.right⟩

/-- The pair is the only item of a sequence right above the limit. -/
theorem pair_at_limit_is_mapping : ∃ root, parse (.ofList (Syntax.nested (maxDepth - 1))) = .ok (some root) ∧
    ∃ m ∈ root.level maxDepth, m.isContainer = true := by
  obtain ⟨x, hparse, hx⟩ := parse_nested (maxDepth - 1)
  obtain ⟨root, hroot, m, hm, hcontainer⟩ :=
    Node.exists_level_of_isNested hx (k := maxDepth) (Nat.le_refl _) (Nat.zero_add maxDepth).le
  exact ⟨root, hroot ▸ hparse, m, hm, hcontainer rfl⟩

end YamlOutline
