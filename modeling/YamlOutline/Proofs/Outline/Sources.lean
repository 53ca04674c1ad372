import YamlOutline.Outline.Basic
import YamlOutline.Parse
import YamlOutline.Proofs.Syntax.Leaves

/-! What the items of an outline are made from: an entry with a collection as its value, or a
collection in a sequence. Both are parts of the concrete syntax tree, with the span of the item. -/

namespace YamlOutline
open Syntax (Span Tree Kind)

/-- Whether the nodes of a kind are mappings, if they are mappings or sequences. A pair counts as the
mapping that has no other pair. -/
def Syntax.Kind.isMapping? : Kind → Option Bool
  | .blockMapping | .flowMapping | .blockMappingPair | .flowPair => some true
  | .blockSequence | .flowSequence => some false
  | _ => none

namespace Outline

mutual
/-- The span of an item and those of the items below it, from top to bottom. -/
def spansOf : Item → List Span
  | ⟨_, _, span, children⟩ => span :: spans children

def spans : List Item → List Span
  | [] => []
  | t :: ts => spansOf t ++ spans ts
end

/-- What an item is made from: a stretch of the source that is a mapping or a sequence. The entry of
a mapping is the mapping with this entry alone. -/
structure Source where
  span : Span
  isMapping : Bool

mutual
/-- What the items for the containers inside a node are made from, in the order of the outline. -/
def sources : Node → List Source
  | .mapping _ entries => sourcesOfEntries entries
  | .sequence _ items => sourcesOfItems items
  | .scalar _ _ | .null _ => []

def sourcesOfEntries : List Entry → List Source
  | [] => []
  | .bare _ _ :: es => sourcesOfEntries es
  | .pair span _ value :: es =>
    let rest := sourcesOfEntries es
    if value.isContainer then ⟨span, true⟩ :: sources value ++ rest else rest

def sourcesOfItems : List Node → List Source
  | [] => []
  | n :: ns =>
    let rest := sourcesOfItems ns
    if n.isContainer then ⟨n.span, n.isMapping⟩ :: sources n ++ rest else rest
end

mutual
/-- Every item is made from its source, and nothing else is. -/
theorem spans_ofNode (source : String) : (n : Node) →
    spans (ofNode source n) = (sources n).map Source.span
  | .mapping _ entries => spans_ofEntries source entries
  | .sequence _ items => spans_ofItems source items
  | .scalar _ _ | .null _ => rfl

theorem spans_ofEntries (source : String) : (es : List Entry) →
    spans (ofEntries source es) = (sourcesOfEntries es).map Source.span
  | [] => rfl
  | .bare _ _ :: es => spans_ofEntries source es
  | .pair span key value :: es => by
    have hrest := spans_ofEntries source es
    rw [ofEntries, sourcesOfEntries]
    split
    · rw [spans, Item.ofChildren, spansOf, spans_ofNode source value, hrest]
      simp
    · exact hrest

theorem spans_ofItems (source : String) : (ns : List Node) →
    spans (ofItems source ns) = (sourcesOfItems ns).map Source.span
  | [] => rfl
  | n :: ns => by
    have hrest := spans_ofItems source ns
    rw [ofItems, sourcesOfItems]
    split
    · rw [spans, Item.ofChildren, spansOf, spans_ofNode source n, hrest]
      simp
    · exact hrest
end

end Outline

namespace Node
open Outline (Source sources sourcesOfEntries sourcesOfItems)
variable {cs : List Char} {ts : List Tree} {n : Node} {d : Source}

/-- A part of the trees has this span and is of this sort. -/
def Stems (cs : List Char) (ts : List Tree) (d : Source) : Prop :=
  ∃ k parts, .node k parts ∈ Tree.preorderList ts ∧ contentSpan cs (.node k parts) = d.span ∧
    k.isMapping? = some d.isMapping

/-- The node, if it is a container, and the sources of the items inside it come from the trees. -/
def StemsAll (cs : List Char) (ts : List Tree) (n : Node) : Prop :=
  (n.isContainer = true → Stems cs ts ⟨n.span, n.isMapping⟩) ∧ ∀ d ∈ sources n, Stems cs ts d

private theorem Stems.mono {us : List Tree} (h : Stems cs ts d)
    (hsub : Tree.preorderList ts ⊆ Tree.preorderList us) :
    Stems cs us d := by
  obtain ⟨k, parts, hmem, hd⟩ := h
  exact ⟨k, parts, hsub hmem, hd⟩

private theorem StemsAll.mono {us : List Tree} (h : StemsAll cs ts n)
    (hsub : Tree.preorderList ts ⊆ Tree.preorderList us) : StemsAll cs us n :=
  ⟨fun hn => (h.1 hn).mono hsub, fun d hd => (h.2 d hd).mono hsub⟩

private theorem preorderList_subset_cons (t : Tree) (ts : List Tree) :
    Tree.preorderList ts ⊆ Tree.preorderList (t :: ts) := by
  rw [Tree.preorderList]
  exact List.subset_append_right _ _

private theorem preorderList_singleton_subset (t : Tree) (ts : List Tree) :
    Tree.preorderList [t] ⊆ Tree.preorderList (t :: ts) := by
  rw [Tree.preorderList, Tree.preorderList, Tree.preorderList, List.append_nil]
  exact List.subset_append_left _ _

private theorem preorderList_subset_node (k : Kind) (parts ts : List Tree) :
    Tree.preorderList parts ⊆ Tree.preorderList (.node k parts :: ts) := by
  rw [Tree.preorderList, Tree.preorder]
  exact List.subset_append_of_subset_left _ (List.subset_cons_self _ _)

private theorem node_mem_preorderList (k : Kind) (parts ts : List Tree) :
    .node k parts ∈ Tree.preorderList (.node k parts :: ts) := by
  simp [Tree.preorderList, Tree.preorder]

private theorem stemsAll_scalar {span : Span} {v : String} : StemsAll cs ts (.scalar span v) :=
  ⟨nofun, nofun⟩

mutual
private theorem ofTree?_stems (depth : Nat) :
    (t : Tree) → {n : Node} → ofTree? cs depth t = some n →
    StemsAll cs [t] n
  | .leaf k s, n, h => by
    rw [ofTree?] at h
    split at h <;> cases h <;> exact stemsAll_scalar
  | .node k ts, n, h => by
    have hsub := preorderList_subset_node k ts []
    have here {b : Bool} (hk : k.isMapping? = some b) :
        Stems cs [.node k ts] ⟨contentSpan cs (.node k ts), b⟩ :=
      ⟨k, ts, node_mem_preorderList k ts [], rfl, hk⟩
    have hentries := entriesOf_stems depth ts
    have hitems := itemsOf_stems depth ts
    rw [ofTree?] at h
    split at h
    · exact (inside?_stems depth ts h).mono hsub
    split at h
    · cases h
      exact stemsAll_scalar
    split at h <;> cases h
    · exact ⟨fun _ => here rfl, fun d hd => (hentries d hd).mono hsub⟩
    · exact ⟨fun _ => here rfl, fun d hd => (hentries d hd).mono hsub⟩
    · exact ⟨fun _ => here rfl, fun d hd => (hitems d hd).mono hsub⟩
    · exact ⟨fun _ => here rfl, fun d hd => (hitems d hd).mono hsub⟩
    · exact stemsAll_scalar

private theorem inside?_stems (depth : Nat) :
    (ts : List Tree) → {n : Node} → inside? cs depth ts = some n →
    StemsAll cs ts n
  | [], _, h => by
    rw [inside?] at h
    cases h
  | t :: ts, n, h => by
    rw [inside?] at h
    split at h
    · exact (inside?_stems depth ts h).mono (preorderList_subset_cons t ts)
    · exact (ofTree?_stems depth t h).mono (preorderList_singleton_subset t ts)

private theorem valueOf?_stems (depth : Nat) : (ts : List Tree) → {pastColon : Bool} → {n : Node} →
    valueOf? cs depth pastColon ts = some n → StemsAll cs ts n
  | [], _, _, h => by
    rw [valueOf?] at h
    cases h
  | t :: ts, pastColon, n, h => by
    rw [valueOf?] at h
    split at h
    · exact (ofTree?_stems depth t h).mono (preorderList_singleton_subset t ts)
    · exact (valueOf?_stems depth ts h).mono (preorderList_subset_cons t ts)

private theorem entriesOf_stems (depth : Nat) : (ts : List Tree) →
    ∀ d ∈ sourcesOfEntries (entriesOf cs depth ts), Stems cs ts d
  | [], d, hd => by
    rw [entriesOf] at hd
    cases hd
  | .leaf k s :: ts, d, hd => by
    rw [entriesOf] at hd
    exact (entriesOf_stems depth ts d hd).mono (preorderList_subset_cons _ ts)
  | .node k parts :: ts, d, hd => by
    have hrest (hd : d ∈ sourcesOfEntries (entriesOf cs depth ts)) : Stems cs (.node k parts :: ts) d :=
      (entriesOf_stems depth ts d hd).mono (preorderList_subset_cons _ ts)
    rw [entriesOf] at hd
    split at hd
    · rename_i hk
      split at hd
      · rename_i v hv
        rw [sourcesOfEntries] at hd
        split at hd
        · rcases List.mem_cons.mp hd with rfl | hd
          · refine ⟨k, parts, node_mem_preorderList k parts ts, rfl, ?_⟩
            rcases (Bool.or_eq_true _ _).mp hk with hk | hk <;> rw [beq_iff_eq.mp hk] <;> rfl
          rcases List.mem_append.mp hd with hd | hd
          · exact ((valueOf?_stems (depth + 1) parts hv).2 d hd).mono (preorderList_subset_node k parts ts)
          · exact hrest hd
        · exact hrest hd
      · rw [sourcesOfEntries] at hd
        exact hrest hd
    split at hd
    · rw [sourcesOfEntries] at hd
      exact hrest hd
    · exact hrest hd

private theorem itemsOf_stems (depth : Nat) : (ts : List Tree) →
    ∀ d ∈ sourcesOfItems (itemsOf cs depth ts), Stems cs ts d
  | [], d, hd => by
    rw [itemsOf] at hd
    cases hd
  | .leaf k s :: ts, d, hd => by
    rw [itemsOf] at hd
    exact (itemsOf_stems depth ts d hd).mono (preorderList_subset_cons _ ts)
  | .node k parts :: ts, d, hd => by
    have hrest (hd : d ∈ sourcesOfItems (itemsOf cs depth ts)) : Stems cs (.node k parts :: ts) d :=
      (itemsOf_stems depth ts d hd).mono (preorderList_subset_cons _ ts)
    -- an item is the source of one item, and has those of the items below it
    have hitem {m : Node} (hm : StemsAll cs (.node k parts :: ts) m)
        (hd : d ∈ sourcesOfItems (m :: itemsOf cs depth ts)) : Stems cs (.node k parts :: ts) d := by
      rw [sourcesOfItems] at hd
      split at hd
      · rename_i hcontainer
        rcases List.mem_cons.mp hd with rfl | hd
        · exact hm.1 hcontainer
        rcases List.mem_append.mp hd with hd | hd
        · exact hm.2 d hd
        · exact hrest hd
      · exact hrest hd
    rw [itemsOf] at hd
    split at hd
    · rename_i hk
      obtain rfl := beq_iff_eq.mp hk
      have here : Stems cs (.node .flowPair parts :: ts) ⟨contentSpan cs (.node .flowPair parts), true⟩ :=
        ⟨.flowPair, parts, node_mem_preorderList _ parts ts, rfl, rfl⟩
      have hpair {e : Entry} (he : ∀ d ∈ sourcesOfEntries [e], Stems cs (.node .flowPair parts :: ts) d) :
          StemsAll cs (.node .flowPair parts :: ts) (.mapping (contentSpan cs (.node .flowPair parts)) [e]) :=
        ⟨fun _ => here, he⟩
      refine hitem (hpair fun e he => ?_) hd
      split at he
      · rename_i v hv
        rw [sourcesOfEntries] at he
        split at he
        · rcases List.mem_cons.mp he with rfl | he
          · exact here
          rcases List.mem_append.mp he with he | he
          · exact ((valueOf?_stems (depth + 2) parts hv).2 e he).mono (preorderList_subset_node _ parts ts)
          · cases he
        · cases he
      · cases he
    · refine hitem ?_ hd
      cases hin : inside? cs (depth + 1) parts with
      | none => exact ⟨nofun, nofun⟩
      | some m => exact (inside?_stems (depth + 1) parts hin).mono (preorderList_subset_node k parts ts)
end

end Node

/-- Whatever an outline shows is a collection or a pair of the text. -/
theorem parse_stems {text : String} {root : Node} (h : parse text = .ok (some root)) :
    ∀ d ∈ Outline.sources root, Node.Stems text.toList [Tree.ofText text.toList] d := by
  unfold parse at h
  simp only at h
  split at h
  · cases h
  obtain ⟨body, hbody, hroot⟩ := Option.bind_eq_some_iff.mp (Except.ok.inj h)
  obtain ⟨w, hw, hn⟩ := Option.bind_eq_some_iff.mp hroot
  have hmem := List.mem_of_find?_eq_some hbody
  have hw := Tree.mem_preorder_of_mem_children (List.mem_of_find?_eq_some hw)
  intro d hd
  refine ((Node.ofTree?_stems 0 w hn).2 d hd).mono fun t ht => ?_
  rw [Tree.preorderList, Tree.preorderList, List.append_nil] at ht ⊢
  have hbody := (Tree.of_mem_preorder _ hmem).2
  exact hbody ((Tree.of_mem_preorder _ hw).2 ht)

end YamlOutline
