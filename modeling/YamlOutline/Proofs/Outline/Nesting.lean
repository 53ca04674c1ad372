import Mathlib.Logic.Relation
import YamlOutline.Proofs.Node.Spans
import YamlOutline.Proofs.Outline.Sources
import YamlOutline.Summary.Align

/-! Where the items of an outline lead. If the spans of a document are well nested, so are those of
its outline, whether it is built from the document or a summary is aligned with it. A built outline
takes the spans of entries and leaves scalars out; an aligned one takes the spans of values and may
stay on one node for many levels. What both have in common is that an item leads to a node at or
inside the one that the item above it stands for. -/

namespace YamlOutline
open Syntax (Span)

variable {cs : List Char} {n m : Node}

namespace Syntax.Span
variable {s t u : Span}

private theorem fits_iff : s.Fits cs ↔ s.start ≤ s.stop ∧ s.stop ≤ Text.size cs ∧
    Text.IsBoundary cs s.start ∧ Text.IsBoundary cs s.stop :=
  ⟨fun h => ⟨h.ordered, h.inText, h.startsAt, h.stopsAt⟩, fun h => ⟨h.1, h.2.1, h.2.2.1, h.2.2.2⟩⟩

private theorem within_iff : s.Within t ↔ t.start ≤ s.start ∧ s.stop ≤ t.stop :=
  ⟨fun h => ⟨h.start, h.stop⟩, fun h => ⟨h.1, h.2⟩⟩

instance : Decidable (s.Fits cs) :=
  decidable_of_iff _ fits_iff.symm

instance : Decidable (s.Within t) :=
  decidable_of_iff _ within_iff.symm

private theorem Within.refl (s : Span) : s.Within s :=
  ⟨Nat.le_refl _, Nat.le_refl _⟩

private theorem Within.trans (h : s.Within t) (h' : t.Within u) : s.Within u :=
  ⟨h'.start.trans h.start, h.stop.trans h'.stop⟩

end Syntax.Span

namespace Node

/-- The values of a mapping and the items of a sequence. -/
def parts : Node → List Node
  | mapping _ es => es.filterMap Entry.value?
  | sequence _ ns => ns
  | scalar _ _ | null _ => []

/-- `m` is the node `n` or stands somewhere inside it. -/
def Holds (n m : Node) : Prop :=
  Relation.ReflTransGen (fun a b : Node => b ∈ a.parts) n m

private theorem WellNested.fits (h : n.WellNested cs) : n.span.Fits cs := by
  cases n with
  | mapping span es =>
    rw [WellNested] at h
    exact h.1
  | sequence span ns =>
    rw [WellNested] at h
    exact h.1
  | scalar span value | null span =>
    rw [WellNested] at h
    exact h

/-- A value is inside its entry and so inside the mapping, and an item is inside its sequence. -/
private theorem WellNested.part (h : n.WellNested cs) (hm : m ∈ n.parts) :
    m.span.Within n.span ∧ m.WellNested cs := by
  cases n with
  | mapping span es =>
    rw [WellNested] at h
    obtain ⟨e, he, hv⟩ := List.mem_filterMap.mp hm
    obtain ⟨hentry, -, hnested⟩ := entriesNested_iff.mp h.2.2 e he
    obtain ⟨hvalue, hwell⟩ := hnested m hv
    exact ⟨hvalue.trans hentry, hwell⟩
  | sequence span ns =>
    rw [WellNested] at h
    exact itemsNested_iff.mp h.2.2 m hm
  | scalar span value | null span => cases hm

end Node

namespace Outline

mutual
/-- The span of the item is a piece of the text, and whatever is below the item lies inside it. -/
def Item.Nested (cs : List Char) : Item → Prop
  | ⟨_, _, span, children⟩ => span.Fits cs ∧ NestedIn cs span children

/-- Every item lies inside `outer`, and the items below it inside the item. -/
def NestedIn (cs : List Char) (outer : Span) : List Item → Prop
  | [] => True
  | t :: ts => t.span.Within outer ∧ t.Nested cs ∧ NestedIn cs outer ts
end

mutual
/-- Whatever is below the item stands in order. -/
def Item.Orderly : Item → Prop
  | ⟨_, _, _, children⟩ => Orderly children

/-- No item begins before the ones in front of it end, on any level. -/
def Orderly : List Item → Prop
  | [] => True
  | t :: ts => (∀ u ∈ ts, t.span.stop ≤ u.span.start) ∧ t.Orderly ∧ Orderly ts
end

mutual
/-- The item leads to `n`, and every item below it to the node of the item above it or to a value or
item directly inside that node. -/
def Item.StandsFor (n : Node) : Item → Prop
  | ⟨_, _, span, children⟩ => span = n.span ∧ StandIn n children

def StandIn (n : Node) : List Item → Prop
  | [] => True
  | t :: ts => (∃ m, (m = n ∨ m ∈ n.parts) ∧ t.StandsFor m) ∧ StandIn n ts
end

variable {outer : Span} {items : List Item} {t : Item} {source : String}

private theorem NestedIn.of_mem (h : NestedIn cs outer items) (ht : t ∈ items) :
    t.span.Within outer ∧ t.Nested cs := by
  induction items with
  | nil => cases ht
  | cons u us ih =>
    rw [NestedIn] at h
    rcases List.mem_cons.mp ht with rfl | ht
    · exact ⟨h.1, h.2.1⟩
    · exact ih h.2.2 ht

private theorem empty_fits (cs : List Char) : Span.Fits cs ⟨0, 0⟩ :=
  ⟨Nat.le_refl _, Nat.zero_le _, .zero cs, .zero cs⟩

/-- What lies inside a span also lies inside a larger one. -/
private theorem NestedIn.mono {outer' : Span} (h : NestedIn cs outer items)
    (ho : outer.Within outer') :
    NestedIn cs outer' items := by
  induction items with
  | nil => trivial
  | cons t ts ih =>
    rw [NestedIn] at h ⊢
    exact ⟨h.1.trans ho, h.2.1, ih h.2.2⟩

private theorem nested_ofChildren {label : String} {span : Span} (hs : span.Fits cs)
    (h : NestedIn cs span items) : (Item.ofChildren label span items).Nested cs := by
  rw [Item.ofChildren, Item.Nested]
  exact ⟨hs, h⟩

/-! ### Built outlines -/

private theorem span_mem_of_mem_ofEntries {es : List Entry} (ht : t ∈ ofEntries source es) :
    t.span ∈ es.map Entry.span := by
  induction es with
  | nil =>
    rw [ofEntries] at ht
    cases ht
  | cons e es ih =>
    rw [List.map_cons, List.mem_cons]
    cases e with
    | bare span key =>
      rw [ofEntries] at ht
      exact .inr (ih ht)
    | pair span key value =>
      rw [ofEntries] at ht
      split at ht
      · rcases List.mem_cons.mp ht with rfl | ht
        · exact .inl rfl
        · exact .inr (ih ht)
      · exact .inr (ih ht)

private theorem span_mem_of_mem_ofItems {ns : List Node} (ht : t ∈ ofItems source ns) :
    t.span ∈ ns.map Node.span := by
  induction ns with
  | nil =>
    rw [ofItems] at ht
    cases ht
  | cons n ns ih =>
    rw [List.map_cons, List.mem_cons]
    rw [ofItems] at ht
    split at ht
    · rcases List.mem_cons.mp ht with rfl | ht
      · exact .inl rfl
      · exact .inr (ih ht)
    · exact .inr (ih ht)

/-- The item of an entry or of an item, before those of the ones behind it. -/
private theorem orderly_cons {label : String} {span : Span} {children : List Item}
    {spans : List Span}
    (hspans : ∀ t ∈ items, t.span ∈ spans) (hs : ∀ s ∈ spans, span.stop ≤ s.start)
    (hc : Orderly children) (h : Orderly items) :
    Orderly (.ofChildren label span children :: items) := by
  rw [Orderly, Item.ofChildren, Item.Orderly]
  refine ⟨?_, hc, h⟩
  intro u hu
  exact hs _ (hspans u hu)

mutual
private theorem ofNode_nested (source : String) : (n : Node) → n.WellNested cs →
    NestedIn cs n.span (ofNode source n) ∧ Orderly (ofNode source n)
  | .mapping span es, h => by
    rw [Node.WellNested] at h
    rw [ofNode]
    exact ofEntries_nested source es h.2.1 h.2.2
  | .sequence span ns, h => by
    rw [Node.WellNested] at h
    rw [ofNode]
    exact ofItems_nested source ns h.2.1 h.2.2
  | .scalar _ _, _ | .null _, _ => ⟨trivial, trivial⟩

private theorem ofEntries_nested (source : String) {outer : Span} : (es : List Entry) →
    es.Pairwise (fun e f => e.span.stop ≤ f.span.start) → Node.EntriesNested cs outer es →
    NestedIn cs outer (ofEntries source es) ∧ Orderly (ofEntries source es)
  | [], _, _ => ⟨trivial, trivial⟩
  | .bare span key :: es, ho, h => by
    rw [Node.EntriesNested] at h
    rw [ofEntries]
    exact ofEntries_nested source es ho.tail h.2.2
  | .pair span key value :: es, ho, h => by
    rw [Node.EntriesNested] at h
    obtain ⟨hfits, hspan, hvalue, hwell, hes⟩ := h
    obtain ⟨hbefore, hrest⟩ := List.pairwise_cons.mp ho
    obtain ⟨hin, hseq⟩ := ofEntries_nested source es hrest hes
    obtain ⟨hbelow, hbelowSeq⟩ := ofNode_nested source value hwell
    rw [ofEntries]
    split
    · refine ⟨⟨hspan, nested_ofChildren hfits (hbelow.mono hvalue), hin⟩, ?_⟩
      apply orderly_cons (fun t => span_mem_of_mem_ofEntries) _ hbelowSeq hseq
      intro s hs
      obtain ⟨e, he, rfl⟩ := List.mem_map.mp hs
      exact hbefore e he
    · exact ⟨hin, hseq⟩

private theorem ofItems_nested (source : String) {outer : Span} : (ns : List Node) →
    ns.Pairwise (fun m n => m.span.stop ≤ n.span.start) → Node.ItemsNested cs outer ns →
    NestedIn cs outer (ofItems source ns) ∧ Orderly (ofItems source ns)
  | [], _, _ => ⟨trivial, trivial⟩
  | n :: ns, ho, h => by
    rw [Node.ItemsNested] at h
    obtain ⟨hspan, hwell, hns⟩ := h
    obtain ⟨hbefore, hrest⟩ := List.pairwise_cons.mp ho
    obtain ⟨hin, hseq⟩ := ofItems_nested source ns hrest hns
    obtain ⟨hbelow, hbelowSeq⟩ := ofNode_nested source n hwell
    rw [ofItems]
    split
    · refine ⟨⟨hspan, nested_ofChildren hwell.fits hbelow, hin⟩, ?_⟩
      apply orderly_cons (fun t => span_mem_of_mem_ofItems) _ hbelowSeq hseq
      intro s hs
      obtain ⟨m, hm, rfl⟩ := List.mem_map.mp hs
      exact hbefore m hm
    · exact ⟨hin, hseq⟩
end

end Outline

/-! ### Aligned outlines -/

namespace Summary
open Outline (Item NestedIn StandIn spans spansOf)

variable {source : String}

/-- Whatever a label names is a value or an item of the node that it is looked up in. -/
private theorem mem_parts_of_find? {label : String} (h : find? label n source = some m) :
    m ∈ n.parts := by
  cases n with
  | mapping span es =>
    rw [find?] at h
    obtain ⟨e, he, hv⟩ := Option.bind_eq_some_iff.mp h
    exact List.mem_filterMap.mpr ⟨e, List.mem_of_find?_eq_some he, hv⟩
  | sequence span ns =>
    rw [find?] at h
    exact List.mem_of_find?_eq_some h
  | scalar span value | null span =>
    rw [find?] at h
    cases h

/-- A label that is looked up in a node leads to one of its parts, or stays with the node. -/
private theorem resolve_some (label : String) (n : Node) (source : String) :
    ∃ m, (m = n ∨ m ∈ n.parts) ∧ (resolve label (some n) source).node? = some m := by
  rw [resolve, Option.bind_some]
  cases hf : find? label n source with
  | none => exact ⟨n, .inl rfl, rfl⟩
  | some m => exact ⟨m, .inr (mem_parts_of_find? hf), rfl⟩

mutual
/-- An aligned line leads to the node of its scope or to a part of that, and so on below it. -/
private theorem alignEntry_standsFor (source : String) (n : Node) : (e : Entry) →
    ∃ m, (m = n ∨ m ∈ n.parts) ∧ (alignEntry source (some n) e).StandsFor m
  | ⟨line, children⟩ => by
    obtain ⟨m, hm, htarget⟩ := resolve_some line.label n source
    refine ⟨m, hm, ?_⟩
    rw [alignEntry]
    simp only [htarget, Option.isSome_some, if_true, spanOf, Item.StandsFor, true_and]
    exact alignEntries_standIn source m children

private theorem alignEntries_standIn (source : String) (n : Node) : (es : List Entry) →
    StandIn n (alignEntries source (some n) es)
  | [] => trivial
  | e :: es => ⟨alignEntry_standsFor source n e, alignEntries_standIn source n es⟩
end

end Summary

namespace Outline

mutual
/-- Where the document is well nested, an item nests as the nodes do that its lines stand for. -/
private theorem Item.StandsFor.nested {n : Node} (hn : n.WellNested cs) :
    (t : Item) → t.StandsFor n →
    t.span = n.span ∧ t.Nested cs
  | ⟨label, kind, span, children⟩, h => by
    rw [Item.StandsFor] at h
    obtain ⟨rfl, hc⟩ := h
    rw [Item.Nested]
    exact ⟨rfl, hn.fits, StandIn.nestedIn hn children hc⟩

private theorem StandIn.nestedIn {n : Node} (hn : n.WellNested cs) :
    (ts : List Item) → StandIn n ts →
    NestedIn cs n.span ts
  | [], _ => trivial
  | t :: ts, h => by
    rw [StandIn] at h
    obtain ⟨⟨m, hm, ht⟩, hts⟩ := h
    rw [NestedIn]
    rcases hm with rfl | hm
    · obtain ⟨hspan, hnested⟩ := Item.StandsFor.nested hn t ht
      exact ⟨hspan ▸ .refl _, hnested, StandIn.nestedIn hn ts hts⟩
    · obtain ⟨hwithin, hwell⟩ := hn.part hm
      obtain ⟨hspan, hnested⟩ := Item.StandsFor.nested hwell t ht
      exact ⟨hspan ▸ hwithin, hnested, StandIn.nestedIn hn ts hts⟩
end

mutual
/-- Only spans of nodes inside the node that an item stands for appear in it and below it. -/
private theorem Item.StandsFor.held {n : Node} : (t : Item) → t.StandsFor n →
    ∀ s ∈ spansOf t, ∃ m, n.Holds m ∧ m.span = s
  | ⟨label, kind, span, children⟩, h, s, hs => by
    rw [Item.StandsFor] at h
    rw [spansOf, List.mem_cons] at hs
    rcases hs with rfl | hs
    · exact ⟨n, .refl, h.1.symm⟩
    · exact StandIn.held children h.2 s hs

private theorem StandIn.held {n : Node} : (ts : List Item) → StandIn n ts →
    ∀ s ∈ spans ts, ∃ m, n.Holds m ∧ m.span = s
  | [], _, _, hs => nomatch hs
  | t :: ts, h, s, hs => by
    rw [StandIn] at h
    obtain ⟨⟨m, hm, ht⟩, hts⟩ := h
    rw [spans, List.mem_append] at hs
    rcases hs with hs | hs
    · obtain ⟨k, hk, hspan⟩ := Item.StandsFor.held t ht s hs
      rcases hm with rfl | hm
      · exact ⟨k, hk, hspan⟩
      · exact ⟨k, .head hm hk, hspan⟩
    · exact StandIn.held ts hts s hs
end

/-- Without a document every line leads to the same empty span, and only the outermost lines are
there at all. -/
private theorem align_none (summary : List Summary.Entry) (source : String) :
    ∀ t ∈ Summary.align summary none source, t.span = ⟨0, 0⟩ ∧ t.children = [] := by
  induction summary with
  | nil => nofun
  | cons e es ih =>
    obtain ⟨line, children⟩ := e
    rw [Summary.align, Summary.alignEntries, List.forall_mem_cons]
    exact ⟨⟨rfl, rfl⟩, ih⟩

private theorem spans_eq_of_leaves {s : Span} (h : ∀ t ∈ items, t.span = s ∧ t.children = []) :
    ∀ s' ∈ spans items, s' = s := by
  induction items with
  | nil => nofun
  | cons t ts ih =>
    obtain ⟨label, kind, span, children⟩ := t
    obtain ⟨⟨rfl, rfl⟩, hts⟩ := List.forall_mem_cons.mp h
    intro s' hs
    rw [spans, spansOf, spans, List.singleton_append, List.mem_cons] at hs
    exact hs.elim id (ih hts s')

/-- In a document with well nested spans every item of its outline, and every item of a summary
aligned with it, leads to a piece of the source that lies inside the one of the item above. What is
built stands in order besides. What is aligned leads to the content of the document or to nodes
inside it, each item to the node of the item above or to a part of that. Without content nothing is
built, and every span that is aligned is empty. -/
theorem spans_nested_in_both_modes (source : String) (root : Option Node)
    (summary : List Summary.Entry) (h : ∀ n ∈ root, n.WellNested source.toList) :
    ((∀ t ∈ build root source, t.Nested source.toList) ∧ Orderly (build root source)) ∧
      (∀ t ∈ Summary.align summary root source, t.Nested source.toList) ∧
      (∀ n ∈ root,
        NestedIn source.toList n.span (build root source) ∧
          NestedIn source.toList n.span (Summary.align summary root source) ∧
          StandIn n (Summary.align summary root source) ∧
          ∀ s ∈ spans (Summary.align summary root source), ∃ m, n.Holds m ∧ m.span = s) ∧
      (root = none → build root source = [] ∧
        ∀ s ∈ spans (Summary.align summary root source), s = ⟨0, 0⟩) := by
  cases root with
  | none =>
    have hleaves := align_none summary source
    refine ⟨⟨nofun, trivial⟩, ?_, nofun, fun _ => ⟨rfl, spans_eq_of_leaves hleaves⟩⟩
    intro t ht
    obtain ⟨hspan, hchildren⟩ := hleaves t ht
    obtain ⟨label, kind, span, children⟩ := t
    obtain rfl : span = ⟨0, 0⟩ := hspan
    obtain rfl : children = [] := hchildren
    rw [Item.Nested]
    exact ⟨empty_fits _, trivial⟩
  | some n =>
    have hn := h n rfl
    obtain ⟨hbuilt, hordered⟩ := ofNode_nested source n hn
    have hstand := Summary.alignEntries_standIn source n summary
    have haligned := StandIn.nestedIn hn _ hstand
    refine ⟨⟨fun t ht => (hbuilt.of_mem ht).2, hordered⟩, fun t ht => (haligned.of_mem ht).2, ?_,
      nofun⟩
    rintro m ⟨⟩
    exact ⟨hbuilt, haligned, hstand, StandIn.held _ hstand⟩

/-- The content of `é: [b, {c: [1]}]`. -/
def accentedList : Node :=
  .mapping ⟨0, 17⟩
    [.pair ⟨0, 17⟩ "é" (.sequence ⟨4, 17⟩
      [.scalar ⟨5, 6⟩ "b",
        .mapping ⟨8, 16⟩ [.pair ⟨9, 15⟩ "c" (.sequence ⟨12, 15⟩ [.scalar ⟨13, 14⟩ "1"])]])]

/-- A line that names nothing stays on the list above it, and the line below it leads into the list. -/
theorem spans_nested_past_unmatched_line :
    (∀ n ∈ some accentedList, n.WellNested "é: [b, {c: [1]}]".toList) ∧
      ∃ built aligned, build (some accentedList) "é: [b, {c: [1]}]" = built ∧
        Summary.align (Summary.parse "> é:\n  > none\n    - - b\n") (some accentedList)
          "é: [b, {c: [1]}]" = aligned ∧
        spans built = [⟨0, 17⟩, ⟨8, 16⟩, ⟨9, 15⟩] ∧
        spans aligned = [⟨4, 17⟩, ⟨4, 17⟩, ⟨5, 6⟩] ∧
        (∀ t ∈ built, t.Nested "é: [b, {c: [1]}]".toList) ∧
        ∀ t ∈ aligned, t.Nested "é: [b, {c: [1]}]".toList := by
  have h : ∀ n ∈ some accentedList, n.WellNested "é: [b, {c: [1]}]".toList := by
    rintro n ⟨⟩
    simp only [accentedList, Node.WellNested, Node.EntriesNested, Node.ItemsNested]
    decide +kernel
  obtain ⟨⟨hbuilt, _⟩, haligned, _⟩ := spans_nested_in_both_modes "é: [b, {c: [1]}]"
    (some accentedList) (Summary.parse "> é:\n  > none\n    - - b\n") h
  exact ⟨h, _, _, rfl, rfl, by decide +kernel, by decide +kernel, hbuilt, haligned⟩

end Outline

end YamlOutline
