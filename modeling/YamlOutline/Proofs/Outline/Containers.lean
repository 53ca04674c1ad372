import Mathlib.Data.List.Forall2
import YamlOutline.Outline.Basic

/-! What an outline shows of a document: the mappings and sequences in it, all of them and nothing
else, one below the other as they are in the document. Scalars hold nothing, so that leaving them out
puts nothing on another level. -/

namespace YamlOutline.Outline
open Syntax (Span)

mutual
/-- The item and all below it from top to bottom, each with its level. -/
def Item.listed (level : Nat) : Item → List (Nat × Item)
  | ⟨label, kind, span, children⟩ =>
    (level, ⟨label, kind, span, children⟩) :: listedIn (level + 1) children

def listedIn (level : Nat) : List Item → List (Nat × Item)
  | [] => []
  | t :: ts => t.listed level ++ listedIn level ts
end

/-- Something in a document: what it is, on which level below the root, and the stretch of the
source that stands for it. For a value that is the whole entry. -/
structure Part where
  level : Nat
  span : Span
  node : Node

def Part.isContainer (p : Part) : Bool :=
  p.node.isContainer

mutual
/-- All that is in a node, in the order of the source and each part before those in it. -/
def below (level : Nat) : Node → List Part
  | .mapping _ entries => belowEntries level entries
  | .sequence _ items => belowItems level items
  | .scalar _ _ | .null _ => []

def belowEntries (level : Nat) : List Entry → List Part
  | [] => []
  | .bare _ _ :: es => belowEntries level es
  | .pair span _ value :: es => ⟨level, span, value⟩ :: below (level + 1) value ++ belowEntries level es

def belowItems (level : Nat) : List Node → List Part
  | [] => []
  | n :: ns => ⟨level, n.span, n⟩ :: below (level + 1) n ++ belowItems level ns
end

/-- The item stands for the part: it is on the level of the part and leads to its stretch of the
source, it is a leaf exactly if there is no container in the part, and below it is the outline of the
part. -/
structure Shows (source : String) (shown : Nat × Item) (part : Part) : Prop where
  level : shown.1 = part.level
  span : shown.2.span = part.span
  leaf : shown.2.kind = .leaf ↔ ∀ p ∈ below (part.level + 1) part.node, p.isContainer = false
  children : shown.2.children = build (some part.node) source

variable {source label : String} {level : Nat} {span : Span} {value : Node} {rest : List Item}
  {others : List Part}

private theorem listedIn_eq_nil_iff {ts : List Item} : listedIn level ts = [] ↔ ts = [] := by
  cases ts with
  | nil => simp [listedIn]
  | cons t ts =>
    cases t
    simp [listedIn, Item.listed]

/-- What is left out of the outline holds nothing. -/
private theorem below_of_not_isContainer (h : ¬ value.isContainer = true) :
    below level value = [] := by
  cases value <;> first | rfl | exact absurd rfl h

/-- An item for a container, with the outline of the container below it. -/
private theorem forall₂_ofChildren (hc : value.isContainer = true)
    (hvalue : List.Forall₂ (Shows source) (listedIn (level + 1) (ofNode source value))
      ((below (level + 1) value).filter Part.isContainer))
    (hrest : List.Forall₂ (Shows source) (listedIn level rest) (others.filter Part.isContainer)) :
    List.Forall₂ (Shows source)
      (listedIn level (.ofChildren label span (ofNode source value) :: rest))
      ((⟨level, span, value⟩ :: below (level + 1) value ++ others).filter Part.isContainer) := by
  have hnone : ofNode source value = [] ↔
      ∀ p ∈ below (level + 1) value, p.isContainer = false := by
    rw [← listedIn_eq_nil_iff, ← List.length_eq_zero_iff, hvalue.length_eq]
    simp
  have hshows : Shows source (level, .ofChildren label span (ofNode source value))
      ⟨level, span, value⟩ := by
    refine ⟨rfl, rfl, ?_, rfl⟩
    rw [← hnone]
    cases ofNode source value <;> simp [Item.ofChildren]
  rw [List.cons_append, List.filter_cons_of_pos (by exact hc), List.filter_append]
  exact .cons hshows (List.rel_append hvalue hrest)

/-- What is no container has no item, and nothing is lost with it. -/
private theorem forall₂_leftOut (hc : ¬ value.isContainer = true)
    (hrest : List.Forall₂ (Shows source) (listedIn level rest) (others.filter Part.isContainer)) :
    List.Forall₂ (Shows source) (listedIn level rest)
      ((⟨level, span, value⟩ :: below (level + 1) value ++ others).filter Part.isContainer) := by
  rw [below_of_not_isContainer hc, List.cons_append, List.nil_append,
    List.filter_cons_of_neg (by exact hc)]
  exact hrest

mutual
private theorem forall₂_ofNode (source : String) (level : Nat) : (n : Node) →
    List.Forall₂ (Shows source) (listedIn level (ofNode source n))
      ((below level n).filter Part.isContainer)
  | .mapping _ entries => forall₂_ofEntries source level entries
  | .sequence _ items => forall₂_ofItems source level items
  | .scalar _ _ | .null _ => .nil

private theorem forall₂_ofEntries (source : String) (level : Nat) : (es : List Entry) →
    List.Forall₂ (Shows source) (listedIn level (ofEntries source es))
      ((belowEntries level es).filter Part.isContainer)
  | [] => .nil
  | .bare _ _ :: es => forall₂_ofEntries source level es
  | .pair span key value :: es => by
    have hrest := forall₂_ofEntries source level es
    rw [ofEntries, belowEntries]
    split
    · exact forall₂_ofChildren ‹_› (forall₂_ofNode source (level + 1) value) hrest
    · exact forall₂_leftOut ‹_› hrest

private theorem forall₂_ofItems (source : String) (level : Nat) : (ns : List Node) →
    List.Forall₂ (Shows source) (listedIn level (ofItems source ns))
      ((belowItems level ns).filter Part.isContainer)
  | [] => .nil
  | n :: ns => by
    have hrest := forall₂_ofItems source level ns
    rw [ofItems, belowItems]
    split
    · exact forall₂_ofChildren ‹_› (forall₂_ofNode source (level + 1) n) hrest
    · exact forall₂_leftOut ‹_› hrest
end

private theorem Shows.children_ne_nil {shown : Nat × Item} {part : Part}
    (h : Shows source shown part)
    (hk : shown.2.kind = .expandable) : shown.2.children ≠ [] := by
  intro hnone
  have hinside := forall₂_ofNode source (part.level + 1) part.node
  rw [← build, ← h.children, hnone, listedIn, List.forall₂_nil_left_iff] at hinside
  have hleaf := h.leaf.mpr (by simpa using hinside)
  rw [hk] at hleaf
  cases hleaf

/-- What an item of an outline is marked with is true of it. -/
theorem expandable_of_mem_build (document : Option Node) (source : String) :
    ∀ p ∈ listedIn 0 (build document source), p.2.kind = .expandable → p.2.children ≠ [] := by
  cases document with
  | none => nofun
  | some n =>
    have hall := forall₂_ofNode source 0 n
    rw [build]
    generalize listedIn 0 (ofNode source n) = shown at hall ⊢
    generalize (below 0 n).filter Part.isContainer = parts at hall
    induction hall with
    | nil => nofun
    | cons h _ ih => exact List.forall_mem_cons.mpr ⟨h.children_ne_nil, ih⟩

/-- The outline of a document, read from top to bottom, shows one by one the mappings and sequences
in the document, on the levels on which they are there: each as an item that leads to the whole entry
of a value and to an item itself, has the outline of the container below it, and is a leaf exactly if
no further container is in it. -/
theorem outline_shows_containers (root : Node) (source : String) :
    List.Forall₂ (Shows source) (listedIn 0 (build (some root) source))
      ((below 0 root).filter Part.isContainer) :=
  forall₂_ofNode source 0 root

end YamlOutline.Outline
