import YamlOutline.Proofs.Outline.Containers
import YamlOutline.Proofs.Outline.Paths
import YamlOutline.Summary.Align

/-! What alignment makes of a summary. It keeps the forest with its labels, and what it makes of an
entry depends on the labels on the way to the entry and on what is below it: these labels lead to one
node of the document, and the entry is aligned with that node. -/

namespace YamlOutline.Summary
open Outline (Item listedIn)
open Tracker (descend? descend?_cons)

variable {source : String} {n : Node} {path : List Nat} {labels : List String} {e : Entry}

mutual
/-- The item has the label of the entry and below it an item for each entry below that one. It is
expandable exactly if the line says so and there are lines below it. -/
def Follows : Item → Entry → Prop
  | ⟨label, kind, _, items⟩, ⟨line, entries⟩ =>
    label = line.label ∧ (kind = .expandable ↔ line.kind = .expandable ∧ entries ≠ []) ∧
      FollowAll items entries

def FollowAll : List Item → List Entry → Prop
  | [], [] => True
  | t :: ts, e :: es => Follows t e ∧ FollowAll ts es
  | _, _ => False
end

/-- The entry that a path of child indices leads to, with the labels of the entries that it passes. -/
def reach? (es : List Entry) : List Nat → Option (List String × Entry)
  | [] => none
  | [i] => es[i]?.map fun e => ([], e)
  | i :: j :: path => do
    let e ← es[i]?
    let (labels, last) ← reach? e.children (j :: path)
    return (e.line.label :: labels, last)

/-- Where labels lead, one below the other. A label that names nothing leads nowhere else. -/
def follow (source : String) (n : Node) (labels : List String) : Node :=
  labels.foldl (fun n label => (find? label n source).getD n) n

/-! ### The shape of a summary -/

/-- Below a node every label leads to a node. -/
private theorem node?_resolve (label : String) (n : Node) (source : String) :
    (resolve label (some n) source).node? = some ((find? label n source).getD n) := by
  rw [resolve, Option.bind_some]
  cases find? label n source <;> rfl

private theorem alignEntries_eq_map (scope : Option Node) (es : List Entry) :
    alignEntries source scope es = es.map (alignEntry source scope) := by
  induction es with
  | nil => rfl
  | cons e es ih => rw [alignEntries, ih, List.map_cons]

private theorem alignEntry_some (n : Node) (line : Line) (children : List Entry) :
    alignEntry source (some n) ⟨line, children⟩ =
      ⟨line.label, if line.kind = .expandable ∧ children ≠ [] then .expandable else .leaf,
        (follow source n [line.label]).span,
        alignEntries source (some (follow source n [line.label])) children⟩ := by
  rw [alignEntry, node?_resolve]
  cases children <;> simp [follow, alignEntries, spanOf]

mutual
private theorem alignEntry_follows (n : Node) :
    (e : Entry) → Follows (alignEntry source (some n) e) e
  | ⟨line, children⟩ => by
    rw [alignEntry_some, Follows]
    exact ⟨rfl, by simp, alignEntries_follow _ children⟩

private theorem alignEntries_follow (n : Node) : (es : List Entry) →
    FollowAll (alignEntries source (some n) es) es
  | [] => trivial
  | e :: es => ⟨alignEntry_follows n e, alignEntries_follow n es⟩
end

/-! ### Items without children -/

private theorem alignEntry_expandable (source : String) (scope : Option Node) (e : Entry)
    (h : (alignEntry source scope e).kind = .expandable) :
    (alignEntry source scope e).children ≠ [] := by
  obtain ⟨line, children⟩ := e
  rw [alignEntry] at h ⊢
  dsimp only at h ⊢
  generalize (if (resolve line.label scope source).node?.isSome = true then _ else []) = items at h ⊢
  rintro rfl
  simp at h

mutual
/-- What an item of an aligned summary is marked with is true of it. -/
private theorem expandable_of_mem_alignEntry (scope : Option Node) (level : Nat) : (e : Entry) →
    ∀ p ∈ (alignEntry source scope e).listed level, p.2.kind = .expandable → p.2.children ≠ []
  | ⟨line, children⟩, p, hp, hk => by
    have hroot := alignEntry_expandable source scope ⟨line, children⟩
    rw [alignEntry] at hp hroot
    rw [Item.listed] at hp
    rcases List.mem_cons.mp hp with rfl | hp
    · exact hroot hk
    · split at hp
      · exact expandable_of_mem_alignEntries _ (level + 1) children p hp hk
      · cases hp

private theorem expandable_of_mem_alignEntries (scope : Option Node) (level : Nat) :
    (es : List Entry) →
    ∀ p ∈ listedIn level (alignEntries source scope es), p.2.kind = .expandable → p.2.children ≠ []
  | [], _, hp, _ => nomatch hp
  | e :: es, p, hp, hk => by
    rcases List.mem_append.mp hp with hp | hp
    · exact expandable_of_mem_alignEntry scope level e p hp hk
    · exact expandable_of_mem_alignEntries scope level es p hp hk
end

/-! ### Where an entry is aligned -/

private theorem descend?_alignEntries {es : List Entry} (h : reach? es path = some (labels, e)) :
    descend? (alignEntries source (some n) es) path =
      some (alignEntry source (some (follow source n labels)) e) := by
  induction path generalizing es labels n with
  | nil => cases h
  | cons i path ih =>
    cases path with
    | nil =>
      obtain ⟨e', he, heq⟩ := Option.map_eq_some_iff.mp h
      obtain ⟨rfl, rfl⟩ := Prod.mk.inj heq
      rw [descend?, alignEntries_eq_map, List.getElem?_map, he]
      rfl
    | cons j path =>
      simp only [reach?, Option.bind_eq_bind, Option.bind_eq_some_iff, Option.pure_def,
        Option.some.injEq, Prod.mk.injEq, Prod.exists] at h
      obtain ⟨⟨line, children⟩, he, labels, last, hreach, rfl, rfl⟩ := h
      rw [descend?, alignEntries_eq_map, List.getElem?_map, he, Option.map_some, alignEntry_some]
      exact ih hreach

/-- Aligning a summary with a document keeps the summary: its shape and its labels, and an item is
expandable exactly if its line is and has lines below it. No item of an outline, built or aligned, is
expandable without children. An entry that stands below the same labels in two summaries, wherever
that may be and whatever stands around it, is aligned in the same way in both. -/
theorem align_keeps_entries (root : Node) (source : String) (summary : List Entry) :
    FollowAll (align summary (some root) source) summary ∧
      (∀ document, ∀ p ∈ listedIn 0 (Outline.build document source) ++
          listedIn 0 (align summary document source),
        p.2.kind = .expandable → p.2.children ≠ []) ∧
      ∀ other path path' labels e, reach? summary path = some (labels, e) →
        reach? other path' = some (labels, e) →
        ∃ t, descend? (align summary (some root) source) path = some t ∧
          descend? (align other (some root) source) path' = some t := by
  refine ⟨alignEntries_follow root summary, fun document p hp => ?_, ?_⟩
  · rcases List.mem_append.mp hp with hp | hp
    · exact Outline.expandable_of_mem_build document source p hp
    · exact expandable_of_mem_alignEntries document 0 summary p hp
  · intro other path path' labels e h h'
    exact ⟨_, descend?_alignEntries h, descend?_alignEntries h'⟩

/-- The content of `a: {b: [1], c: {b: 2}}`. -/
def listBesideMapping : Node :=
  .mapping ⟨0, 22⟩
    [.pair ⟨0, 22⟩ "a" (.mapping ⟨3, 22⟩
      [.pair ⟨4, 10⟩ "b" (.sequence ⟨7, 10⟩ [.scalar ⟨8, 9⟩ "1"]),
        .pair ⟨12, 21⟩ "c" (.mapping ⟨15, 21⟩ [.pair ⟨16, 20⟩ "b" (.scalar ⟨19, 20⟩ "2")])])]

/-- The entry that is met again, with a line below it that names nothing. -/
def listEntry : Entry :=
  ⟨⟨.expandable, "b", 2⟩, [⟨⟨.leaf, "none", 4⟩, []⟩]⟩

/-- The entry is the first one below its label. -/
def entryFirst : List Entry :=
  [⟨⟨.expandable, "a:", 0⟩, [listEntry, ⟨⟨.leaf, "c", 2⟩, []⟩]⟩]

/-- Other lines stand before the label and between it and the entry. -/
def entryBehindOthers : List Entry :=
  [⟨⟨.leaf, "b", 0⟩, []⟩,
    ⟨⟨.leaf, "a:", 0⟩, [⟨⟨.expandable, "b", 3⟩, []⟩, ⟨⟨.leaf, "c", 2⟩, []⟩, listEntry]⟩]

theorem align_keeps_moved_entry :
    reach? entryFirst [0, 0] = some (["a:"], listEntry) ∧
      reach? entryBehindOthers [1, 2] = some (["a:"], listEntry) ∧
      ∃ t, descend? (align entryFirst (some listBesideMapping) "") [0, 0] = some t ∧
        descend? (align entryBehindOthers (some listBesideMapping) "") [1, 2] = some t ∧
        t.span = ⟨7, 10⟩ ∧ t.kind = .expandable := by
  obtain ⟨_, _, hlocal⟩ := align_keeps_entries listBesideMapping "" entryFirst
  obtain ⟨t, h, h'⟩ := hlocal entryBehindOthers [0, 0] [1, 2] ["a:"] listEntry rfl rfl
  have ht : t.span = ⟨7, 10⟩ ∧ t.kind = .expandable := by
    obtain rfl := Option.some.inj h
    decide +kernel
  exact ⟨rfl, rfl, t, h, h', ht⟩

end YamlOutline.Summary
