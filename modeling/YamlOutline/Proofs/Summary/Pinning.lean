import Mathlib.Data.List.Nodup
import YamlOutline.Proofs.Outline.Titles
import YamlOutline.Summary.Align

/-! Outlines that are printed and aligned with the document that they were made from. Where the keys
of every mapping and the names in every sequence tell them apart, each line leads back to the node
that it was made for. -/

namespace YamlOutline

open Syntax (Span)

/-- The name of a mapping that begins with it. -/
def Node.leadingName? : Node → Option String
  | .mapping _ (.pair _ key (.scalar _ value) :: _) => if key = "name" then some value else none
  | _ => none

namespace Outline

/-- The entries of a mapping can be told apart by labels of one line. -/
structure Keyed (es : List Entry) : Prop where
  distinct : (es.map Entry.key).Nodup
  line : ∀ e ∈ es, '\n' ∉ e.key.toList
  start : ∀ e ∈ es, ∀ c, e.key.toList.head? = some c → Text.isBlank c = false

/-- The mappings and sequences in a sequence are mappings that begin with names of one line, no two
of them with the same. -/
structure Named (ns : List Node) : Prop where
  named : ∀ n ∈ ns, n.isContainer = true →
    ∃ name, n.leadingName? = some name ∧ name ≠ "" ∧ oneLine name = name
  distinct : ((ns.filter Node.isContainer).map Node.leadingName?).Nodup

mutual
/-- What holds of every mapping and every sequence in a node if the labels are to name them. -/
def Identifiable : Node → Prop
  | .mapping _ entries => Keyed entries ∧ IdentifiableEntries entries
  | .sequence _ items => Named items ∧ IdentifiableItems items
  | .scalar _ _ | .null _ => True

def IdentifiableEntries : List Entry → Prop
  | [] => True
  | .bare _ _ :: es => IdentifiableEntries es
  | .pair _ _ value :: es => Identifiable value ∧ IdentifiableEntries es

def IdentifiableItems : List Node → Prop
  | [] => True
  | n :: ns => Identifiable n ∧ IdentifiableItems ns
end

mutual
/-- The mappings and sequences inside a node, each before those inside it. -/
def containers : Node → List Node
  | .mapping _ entries => containersOfEntries entries
  | .sequence _ items => containersOfItems items
  | .scalar _ _ | .null _ => []

def containersOfEntries : List Entry → List Node
  | [] => []
  | .bare _ _ :: es => containersOfEntries es
  | .pair _ _ value :: es =>
    if value.isContainer then value :: containers value ++ containersOfEntries es
    else containersOfEntries es

def containersOfItems : List Node → List Node
  | [] => []
  | n :: ns =>
    if n.isContainer then n :: containers n ++ containersOfItems ns else containersOfItems ns
end

mutual
/-- The spans of an item and of all below it, in the order of the outline. -/
def Item.spans : Item → List Span
  | ⟨_, _, span, children⟩ => span :: spansIn children

def spansIn : List Item → List Span
  | [] => []
  | t :: ts => t.spans ++ spansIn ts
end

end Outline

namespace Summary
open Outline (Item containers containersOfEntries containersOfItems spansIn Keyed Named
  Identifiable IdentifiableEntries IdentifiableItems)

variable {source : String} {depth : Nat}

/-! ### Labels that name a node -/

/-- A search finds the one element that there is to find. -/
private theorem find?_eq_of_unique {α : Type} {l : List α} {p : α → Bool} {a : α} (ha : a ∈ l)
    (hp : p a = true) (hu : ∀ b ∈ l, p b = true → b = a) : l.find? p = some a := by
  cases hf : l.find? p with
  | none => exact absurd hp (List.find?_eq_none.mp hf a ha)
  | some b => rw [hu b (List.mem_of_find?_eq_some hf) (List.find?_some hf)]

/-- Among distinct keys, the label of a key leads to its value. -/
private theorem find?_value {span s : Span} {all : List YamlOutline.Entry} {key : String}
    {value : Node}
    (hd : (all.map Entry.key).Nodup) (h : .pair s key value ∈ all) :
    find? (key ++ ":") (.mapping span all) source = some value := by
  have hkey : keyOf (key ++ ":") = key := by simp [keyOf]
  have hf : all.find? (·.key == key) = some (.pair s key value) := by
    refine find?_eq_of_unique h (beq_self_eq_true key) fun e he hk => ?_
    exact List.inj_on_of_nodup_map hd he h (eq_of_beq hk)
  simp [find?, hkey, Node.entry?, Node.entries, hf, Entry.value?]

private theorem leadingName?_eq_some {n : Node} {name : String} (h : n.leadingName? = some name) :
    ∃ span s s' es, n = .mapping span (.pair s "name" (.scalar s' name) :: es) := by
  unfold Node.leadingName? at h
  split at h
  · rename_i span s key s' value es
    split at h
    · rename_i hk
      cases h
      exact ⟨span, s, s', es, by rw [hk]⟩
    · cases h
  · cases h

private theorem after?_append (lead s : String) : after? lead (lead ++ s) = some s := by
  have hp : lead.toList.isPrefixOf (lead.toList ++ s.toList) = true := by simp
  have hd : (lead.toList ++ s.toList).drop lead.length = s.toList := by
    rw [← String.length_toList, List.drop_left]
  simp [after?, hp, hd]

/-- The label with a name names the mappings that begin with that name, and no scalar. -/
private theorem namesItem_iff {n : Node} {name : String}
    (hn : n.isContainer = true → n.leadingName?.isSome = true) :
    namesItem ("name: " ++ name) n source = true ↔ n.leadingName? = some name := by
  have hdash : after? "- " ("name: " ++ name) = none := by simp [after?]
  cases n with
  | mapping span es =>
    obtain ⟨own, hown⟩ := Option.isSome_iff_exists.mp (hn rfl)
    obtain ⟨span', s, s', es', he⟩ := leadingName?_eq_some hown
    have hnames : namesItem ("name: " ++ name) (.mapping span es) source = (some name == some own) := by
      rw [he]
      simp [namesItem, Node.entry?, Node.entries, Entry.key, Entry.value?, Node.scalar?, after?_append]
    rw [hnames, hown, beq_iff_eq]
    exact eq_comm
  | sequence span items => simp [Node.isContainer, Node.leadingName?] at hn
  | scalar span value => simp [namesItem, hdash, Node.leadingName?]
  | null span => simp [namesItem, hdash, Node.leadingName?]

private theorem itemLabel_of_leadingName? {n : Node} {name : String}
    (h : n.leadingName? = some name)
    (hl : Outline.oneLine name = name) : Outline.itemLabel n source = "name: " ++ name := by
  obtain ⟨span, s, s', es, rfl⟩ := leadingName?_eq_some h
  simp [Outline.itemLabel, Node.entries, Node.scalar?, hl]

/-- Among items that are named apart, the label of an item leads to it. -/
private theorem find?_item {span : Span} {all : List Node} {n : Node} (hall : Named all)
    (h : n ∈ all)
    (hc : n.isContainer = true) :
    find? (Outline.itemLabel n source) (.sequence span all) source = some n := by
  have hsome : ∀ m ∈ all, m.isContainer = true → m.leadingName?.isSome = true := by
    intro m hm hmc
    obtain ⟨own, hown, _⟩ := hall.named m hm hmc
    simp [hown]
  obtain ⟨name, hname, _, hline⟩ := hall.named n h hc
  rw [itemLabel_of_leadingName? hname hline, find?]
  refine find?_eq_of_unique h ((namesItem_iff (hsome n h)).mpr hname) fun m hm hf => ?_
  have hother := (namesItem_iff (hsome m hm)).mp hf
  have hmc : m.isContainer = true := by
    obtain ⟨span, s, s', es, rfl⟩ := leadingName?_eq_some hother
    rfl
  exact List.inj_on_of_nodup_map hall.distinct (List.mem_filter.mpr ⟨hm, hmc⟩)
    (List.mem_filter.mpr ⟨h, hc⟩) (hother.trans hname.symm)

/-! ### Alignment along the outline -/

/-- The items `aligned` say what `items` say, but lead to the nodes `targets`. -/
structure Leads (items aligned : List Item) (targets : List Node) : Prop where
  entries : ∀ depth, entriesOf depth aligned = entriesOf depth items
  spans : spansIn aligned = targets.map Node.span

private theorem Leads.nil : Leads [] [] [] := ⟨fun _ => rfl, rfl⟩

private theorem isEmpty_of_entriesOf {ts us : List Item}
    (h : entriesOf depth ts = entriesOf depth us) :
    ts.isEmpty = us.isEmpty := by
  cases ts <;> cases us <;> simp_all [entriesOf]

/-- A line whose label leads to `n`, and the lines below it, which are aligned with `n`. -/
private theorem Leads.cons {label : String} {span : Span} {scope n : Node}
    {children rest aligned : List Item}
    {targets others : List Node} (hlabel : find? label scope source = some n)
    (hbelow : Leads children (alignEntries source (some n) (entriesOf (depth + 1) children)) targets)
    (hrest : Leads rest aligned others) :
    Leads (.ofChildren label span children :: rest)
      (alignEntry source (some scope) (entryOf depth (.ofChildren label span children)) :: aligned)
      (n :: targets ++ others) := by
  obtain ⟨he, hs⟩ := hbelow
  have hempty := isEmpty_of_entriesOf (he 0)
  have hitem : alignEntry source (some scope) (entryOf depth (.ofChildren label span children)) =
      .ofChildren label n.span (alignEntries source (some n) (entriesOf (depth + 1) children)) := by
    simp only [Item.ofChildren, entryOf, alignEntry, resolve, Option.bind_some, hlabel,
      Target.node?, Option.isSome_some, if_true, spanOf, hempty]
    cases children <;> rfl
  rw [hitem]
  refine ⟨fun d => ?_, ?_⟩
  · simp only [entriesOf, Item.ofChildren, entryOf, he, hempty, hrest.entries]
  · simp only [spansIn, Item.ofChildren, Outline.Item.spans, hs, hrest.spans, List.map_append,
      List.map_cons, List.cons_append]

mutual
private theorem leads_ofNode (source : String) (depth : Nat) : (n : Node) → Identifiable n →
    Leads (Outline.ofNode source n)
      (alignEntries source (some n) (entriesOf depth (Outline.ofNode source n))) (containers n)
  | .mapping span entries, h => by
    rw [Outline.ofNode, containers]
    exact leads_ofEntries source depth span entries (List.Subset.refl _) h.1 h.2
  | .sequence span items, h => by
    rw [Outline.ofNode, containers]
    exact leads_ofItems source depth span items (List.Subset.refl _) h.1 h.2
  | .scalar _ _, _ | .null _, _ => .nil

private theorem leads_ofEntries (source : String) (depth : Nat) (span : Span)
    {all : List YamlOutline.Entry} :
    (es : List YamlOutline.Entry) → es ⊆ all → Keyed all → IdentifiableEntries es →
      Leads (Outline.ofEntries source es)
        (alignEntries source (some (.mapping span all)) (entriesOf depth (Outline.ofEntries source es)))
        (containersOfEntries es)
  | [], _, _, _ => .nil
  | .bare _ _ :: es, hs, hk, h => by
    rw [Outline.ofEntries, containersOfEntries]
    exact leads_ofEntries source depth span es (List.subset_of_cons_subset hs) hk h
  | .pair s key value :: es, hs, hk, h => by
    have hrest := leads_ofEntries source depth span es (List.subset_of_cons_subset hs) hk h.2
    rw [Outline.ofEntries, containersOfEntries]
    by_cases hc : value.isContainer = true
    · simp only [hc, if_true, entriesOf, alignEntries]
      exact .cons (find?_value hk.distinct (hs List.mem_cons_self))
        (leads_ofNode source (depth + 1) value h.1) hrest
    · simpa only [hc, Bool.false_eq_true, if_false] using hrest

private theorem leads_ofItems (source : String) (depth : Nat) (span : Span) {all : List Node} :
    (ns : List Node) → ns ⊆ all → Named all → IdentifiableItems ns →
      Leads (Outline.ofItems source ns)
        (alignEntries source (some (.sequence span all)) (entriesOf depth (Outline.ofItems source ns)))
        (containersOfItems ns)
  | [], _, _, _ => .nil
  | n :: ns, hs, hn, h => by
    have hrest := leads_ofItems source depth span ns (List.subset_of_cons_subset hs) hn h.2
    rw [Outline.ofItems, containersOfItems]
    by_cases hc : n.isContainer = true
    · simp only [hc, if_true, entriesOf, alignEntries]
      exact .cons (find?_item hn (hs List.mem_cons_self) hc) (leads_ofNode source (depth + 1) n h.1) hrest
    · simpa only [hc, Bool.false_eq_true, if_false] using hrest
end

/-! ### Labels that can be printed -/

private theorem legible_of_leadingName? {n : Node} {name : String} (h : n.leadingName? = some name)
    (hne : name ≠ "") (hl : Outline.oneLine name = name) :
    ∀ t ∈ Outline.Title.ofItem? n source, t.Legible := by
  obtain ⟨span, s, s', es, rfl⟩ := leadingName?_eq_some h
  have hvalue : ∃ c ∈ name.toList, Text.isBlank c = false := by
    by_contra hblank
    have hall : ∀ c ∈ name.toList, Text.isBlank c = true := by simpa using hblank
    have hempty : Outline.oneLine name = "" := by
      rw [Outline.oneLine, Text.singleLine_eq_nil_iff.mpr hall]
    exact hne (hl.symm.trans hempty)
  intro t ht
  cases ht
  have hhead : "name".toList.head? = some 'n' := by decide
  refine ⟨fun c hc => ?_, ?_, fun v hv => ?_⟩
  · obtain rfl := Option.some.inj (hhead.symm.trans hc)
    rfl
  · exact (by decide : '\n' ∉ "name".toList)
  · cases hv
    exact hvalue

mutual
private theorem legible_titles (source : String) : (n : Node) → Identifiable n →
    ∀ t ∈ Outline.titles source n, t.Legible
  | .mapping _ entries, h => by
    rw [Outline.titles]
    exact legible_titlesOfEntries source entries h.1.line h.1.start h.2
  | .sequence _ items, h => by
    rw [Outline.titles]
    exact legible_titlesOfItems source items h.1.named h.2
  | .scalar _ _, _ | .null _, _ => nofun

private theorem legible_titlesOfEntries (source : String) : (es : List YamlOutline.Entry) →
    (∀ e ∈ es, '\n' ∉ e.key.toList) →
    (∀ e ∈ es, ∀ c, e.key.toList.head? = some c → Text.isBlank c = false) →
    IdentifiableEntries es → ∀ t ∈ Outline.titlesOfEntries source es, t.Legible
  | [], _, _, _ => nofun
  | .bare _ _ :: es, hline, hstart, h => by
    rw [Outline.titlesOfEntries]
    exact legible_titlesOfEntries source es (List.forall_mem_cons.mp hline).2
      (List.forall_mem_cons.mp hstart).2 h
  | .pair _ key value :: es, hline, hstart, h => by
    obtain ⟨hkey, hline⟩ := List.forall_mem_cons.mp hline
    obtain ⟨hfirst, hstart⟩ := List.forall_mem_cons.mp hstart
    have hrest := legible_titlesOfEntries source es hline hstart h.2
    rw [Outline.titlesOfEntries]
    split
    · rw [List.cons_append, List.forall_mem_cons, List.forall_mem_append]
      exact ⟨⟨hfirst, hkey, nofun⟩, legible_titles source value h.1, hrest⟩
    · exact hrest

private theorem legible_titlesOfItems (source : String) : (ns : List Node) →
    (∀ n ∈ ns, n.isContainer = true →
      ∃ name, n.leadingName? = some name ∧ name ≠ "" ∧ Outline.oneLine name = name) →
    IdentifiableItems ns → ∀ t ∈ Outline.titlesOfItems source ns, t.Legible
  | [], _, _ => nofun
  | n :: ns, hnamed, h => by
    obtain ⟨hn, hnamed⟩ := List.forall_mem_cons.mp hnamed
    have hrest := legible_titlesOfItems source ns hnamed h.2
    rw [Outline.titlesOfItems]
    split
    · rename_i hc
      obtain ⟨name, hname, hne, hl⟩ := hn hc
      rw [List.append_assoc, List.forall_mem_append, List.forall_mem_append]
      refine ⟨?_, legible_titles source n h.1, hrest⟩
      simpa using legible_of_leadingName? hname hne hl
    · exact hrest
end

/-- The containers inside the content of a document. -/
def containersOf (root : Option Node) : List Node :=
  root.elim [] containers

/-- The outline of a document, printed and given back as a summary of the same document, leads
every line to the node that it was made for: the forest has the same shape, labels and kinds as the
outline, and its spans are those of the mappings and sequences inside the document in order, each
of them the value of its entry or the item itself. It is enough that the keys of every mapping are
distinct, on one line and do not begin with white space, and that what is no scalar in a sequence is
a mapping that begins with a name of its own. -/
theorem align_printed_outline (root : Option Node) (source : String)
    (h : ∀ n ∈ root, Identifiable n) :
    entriesOf 0 (align (parse (Outline.render (Outline.build root source))) root source) =
        entriesOf 0 (Outline.build root source) ∧
      spansIn (align (parse (Outline.render (Outline.build root source))) root source) =
        (containersOf root).map Node.span := by
  cases root with
  | none => exact ⟨rfl, rfl⟩
  | some n =>
    have hn := h n rfl
    have hread : parse (Outline.render (Outline.ofNode source n)) =
        entriesOf 0 (Outline.ofNode source n) := by
      rw [parse_render_iff]
      exact (Outline.allPrintable_ofNode_iff source 0 n).mpr (legible_titles source n hn)
    obtain ⟨hentries, hspans⟩ := leads_ofNode source 0 n hn
    rw [Outline.build, hread, align]
    exact ⟨hentries 0, hspans⟩

/-- Two named items in a list below a key, a scalar between them, and a list in the first of them. -/
def twoNamed : Node :=
  .mapping ⟨0, 57⟩
    [.pair ⟨0, 57⟩ "items" (.sequence ⟨9, 57⟩
      [.mapping ⟨11, 34⟩
        [.pair ⟨11, 20⟩ "name" (.scalar ⟨17, 20⟩ "foo"),
          .pair ⟨25, 34⟩ "on" (.sequence ⟨29, 34⟩ [.scalar ⟨30, 33⟩ "now"])],
        .scalar ⟨39, 42⟩ "bar",
        .mapping ⟨47, 57⟩ [.pair ⟨47, 57⟩ "name" (.scalar ⟨53, 57⟩ "bare")]])]

theorem align_printed_outline_twoNamed :
    (∀ n ∈ some twoNamed, Identifiable n) ∧
      entriesOf 0 (align (parse (Outline.render (Outline.build (some twoNamed) "")))
        (some twoNamed) "") = entriesOf 0 (Outline.build (some twoNamed) "") ∧
      spansIn (align (parse (Outline.render (Outline.build (some twoNamed) ""))) (some twoNamed) "") =
        [⟨9, 57⟩, ⟨11, 34⟩, ⟨29, 34⟩, ⟨47, 57⟩] := by
  have keyed {es : List YamlOutline.Entry} (hd : (es.map Entry.key).Nodup)
      (hl : ∀ e ∈ es, '\n' ∉ e.key.toList)
      (hs : ∀ e ∈ es, (e.key.toList.head?.all fun c => !Text.isBlank c) = true) : Keyed es :=
    ⟨hd, hl, fun e he c hc => by simpa [hc] using hs e he⟩
  have h : ∀ n ∈ some twoNamed, Identifiable n := by
    rintro n ⟨⟩
    refine ⟨keyed (by decide) (by decide) (by decide), ⟨⟨?_, by decide⟩, ?_, trivial, ?_, trivial⟩, trivial⟩
    · simp only [List.forall_mem_cons]
      exact ⟨fun _ => ⟨"foo", by decide⟩, nofun, fun _ => ⟨"bare", by decide⟩, nofun⟩
    · exact ⟨keyed (by decide) (by decide) (by decide), trivial, ⟨⟨by decide, by decide⟩, trivial, trivial⟩, trivial⟩
    · exact ⟨keyed (by decide) (by decide) (by decide), trivial, trivial⟩
  obtain ⟨hentries, hspans⟩ := align_printed_outline (some twoNamed) "" h
  exact ⟨h, hentries, hspans⟩

end Summary

end YamlOutline
