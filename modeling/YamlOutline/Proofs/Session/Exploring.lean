import YamlOutline.Proofs.Outline.Containers
import YamlOutline.Proofs.Session.Selection
import YamlOutline.Proofs.Session.Unfolding

/-! Exploring the outline of a document with the keys. In an outline that is built from the document every item
with children can show them. So each level can be opened from the one above it, and what is opened on the way
stays open. -/

namespace YamlOutline

namespace Outline
open Syntax (Span)
variable {source : String} {t item : Item}

/-- An item of an outline has the outline of some node below it, and is marked accordingly. -/
def Item.Grown (source : String) (t : Item) : Prop :=
  ∃ label span n, t = .ofChildren label span (ofNode source n)

private theorem grown_of_mem_ofEntries {es : List Entry} (h : t ∈ ofEntries source es) :
    t.Grown source := by
  induction es with
  | nil => cases h
  | cons e es ih =>
    cases e with
    | bare span key => exact ih h
    | pair span key value =>
      rw [ofEntries] at h
      split at h
      · rcases List.mem_cons.mp h with rfl | h
        · exact ⟨_, _, value, rfl⟩
        · exact ih h
      · exact ih h

private theorem grown_of_mem_ofItems {ns : List Node} (h : t ∈ ofItems source ns) :
    t.Grown source := by
  induction ns with
  | nil => cases h
  | cons n ns ih =>
    rw [ofItems] at h
    split at h
    · rcases List.mem_cons.mp h with rfl | h
      · exact ⟨_, _, n, rfl⟩
      · exact ih h
    · exact ih h

private theorem grown_of_mem_ofNode {n : Node} (h : t ∈ ofNode source n) : t.Grown source := by
  cases n with
  | mapping span entries => exact grown_of_mem_ofEntries h
  | sequence span items => exact grown_of_mem_ofItems h
  | scalar span value => cases h
  | null span => cases h

private theorem Item.Grown.isExpandable (h : t.Grown source) (hc : t.children ≠ []) :
    t.isExpandable = true := by
  obtain ⟨label, span, n, rfl⟩ := h
  simp only [ofChildren] at hc
  simp [Item.isExpandable, ofChildren, hc]

/-- Every path in a built outline leads to such an item. -/
private theorem grown_of_descend? {path : List Nat} {n : Node}
    (h : Tracker.descend? (ofNode source n) path = some item) : item.Grown source := by
  induction path generalizing n with
  | nil => cases h
  | cons i path ih =>
    rw [Tracker.descend?_cons, Option.bind_eq_some_iff] at h
    obtain ⟨t, hi, hat⟩ := h
    have ht := grown_of_mem_ofNode (List.mem_of_getElem? hi)
    cases path with
    | nil =>
      obtain rfl : t = item := Option.some.inj hat
      exact ht
    | cons j path =>
      obtain ⟨label, span, m, rfl⟩ := ht
      exact ih ((Tracker.descend?_cons ..).trans hat)

end Outline

namespace Session
open Outline (Item Row visibleRows)
open Tracker (Visible descend? mem_paths_visibleRows visible_singleton)
variable {s s' s'' : Session} {r : Row} {path : List Nat} {item : Item}

/-- Every item with children can show them. -/
def Openable (roots : List Item) : Prop :=
  ∀ path item, descend? roots path = some item → item.children ≠ [] → item.isExpandable = true

/-! ### Moving about -/

/-- The keys up, down and right lead from one session to another. -/
def LeadsTo (s s' : Session) : Prop :=
  ∃ ops : List Operation, (∀ op ∈ ops, op = .moveUp ∨ op = .moveDown ∨ op = .expandOrDescend) ∧
    s.perform ops = s'

private theorem LeadsTo.refl (s : Session) : s.LeadsTo s :=
  ⟨[], nofun, rfl⟩

private theorem LeadsTo.trans (h : s.LeadsTo s') (h' : s'.LeadsTo s'') : s.LeadsTo s'' := by
  obtain ⟨ops, hops, rfl⟩ := h
  obtain ⟨ops', hops', rfl⟩ := h'
  refine ⟨ops ++ ops', fun op hop => ?_, List.foldl_append ..⟩
  exact (List.mem_append.mp hop).elim (hops op) (hops' op)

private theorem leadsTo_moveUp (s : Session) : s.LeadsTo s.moveUp :=
  ⟨[.moveUp], by simp, rfl⟩

private theorem leadsTo_moveDown (s : Session) : s.LeadsTo s.moveDown :=
  ⟨[.moveDown], by simp, rfl⟩

private theorem leadsTo_expandOrDescend (s : Session) : s.LeadsTo s.expandOrDescend :=
  ⟨[.expandOrDescend], by simp, rfl⟩

private theorem leadsTo_above {n : Nat} (s : Session) (h : n ≤ s.row) :
    s.LeadsTo { s with row := n } := by
  obtain ⟨d, hd⟩ := Nat.exists_eq_add_of_le' h
  induction d generalizing s with
  | zero =>
    rw [Nat.zero_add] at hd
    exact hd ▸ .refl s
  | succ d ih =>
    have hup : s.moveUp.row = d + n := by
      simp only [moveUp]
      omega
    exact (leadsTo_moveUp s).trans (ih s.moveUp (by omega) hup)

private theorem leadsTo_below {n : Nat} (s : Session) (h : s.row ≤ n) (hn : n < s.rows.length) :
    s.LeadsTo { s with row := n } := by
  obtain ⟨d, hd⟩ := Nat.exists_eq_add_of_le h
  induction d generalizing s with
  | zero =>
    rw [Nat.add_zero] at hd
    exact hd ▸ .refl s
  | succ d ih =>
    have hdown : s.moveDown = { s with row := s.row + 1 } := if_pos (by omega)
    have hnext := leadsTo_moveDown s
    rw [hdown] at hnext
    exact hnext.trans (ih { s with row := s.row + 1 } (by simp only; omega) hn (by simp only; omega))

/-- Any row that is listed can be selected. -/
private theorem leadsTo_row {n : Nat} (s : Session) (hn : n < s.rows.length) :
    s.LeadsTo { s with row := n } :=
  (Nat.le_total n s.row).elim (leadsTo_above s) fun h => leadsTo_below s h hn

private theorem exists_selected (h : path ∈ s.rows.map Row.path) :
    ∃ row r, s.LeadsTo { s with row } ∧ s.rows[row]? = some r ∧ r.path = path := by
  obtain ⟨r, hr, hpath⟩ := List.mem_map.mp h
  obtain ⟨row, hrow⟩ := List.mem_iff_getElem?.mp hr
  exact ⟨row, r, leadsTo_row s (List.getElem?_eq_some_iff.mp hrow).1, hrow, hpath⟩

/-! ### From level to level -/

/-- Where the rows show the item above, they show the child too, or the row of the item above can be selected
and is collapsed, and the child is shown as soon as it is expanded. -/
private theorem child_visible_or_collapsed {roots : List Item} {expanded : List (List Nat)}
    {above : List Nat} {i : Nat}
    (hrows : s.rows = visibleRows expanded roots) (ho : Openable roots)
    (hv : Visible expanded [] roots above) (hn : above ≠ [])
    (hp : descend? roots (above ++ [i]) = some item) :
    Visible expanded [] roots (above ++ [i]) ∨ ∃ row r, s.LeadsTo { s with row } ∧
      s.rows[row]? = some r ∧ r.path = above ∧ r.expandable = true ∧ r.expanded = false ∧
      ∀ more, expanded ⊆ more → above ∈ more → Visible more [] roots (above ++ [i]) := by
  have hchild := hp
  rw [Tracker.descend?_concat hn, Option.bind_eq_some_iff] at hchild
  obtain ⟨t, ht, hi⟩ := hchild
  have hx : t.isExpandable = true := ho above t ht (List.ne_nil_of_mem (List.mem_of_getElem? hi))
  obtain ⟨row, r, hlead, hr, rfl⟩ := exists_selected (hrows ▸ mem_paths_visibleRows.mpr hv)
  have hmem : r ∈ visibleRows expanded roots := hrows ▸ List.mem_of_getElem? hr
  cases hshown : r.expanded with
  | true => exact .inl (hv.child ht hx (Outline.path_mem_of_expanded hmem hshown) hp)
  | false =>
    obtain ⟨t', ht', he⟩ := Tracker.descend?_of_reaches (Outline.mem_visibleRows.mp hmem)
    obtain rfl : t = t' := Option.some.inj (ht.symm.trans ht')
    have hexpandable : r.expandable = true := by rw [he]; exact hx
    exact .inr ⟨row, r, hlead, hr, rfl, hexpandable, hshown,
      fun more hsub hin => (hv.mono hsub).child ht hx hin hp⟩

private theorem exists_parent {roots : List Item} {above : List Nat} {i : Nat} (hn : above ≠ [])
    (hp : descend? roots (above ++ [i]) = some item) : ∃ t, descend? roots above = some t := by
  rw [Tracker.descend?_concat hn, Option.bind_eq_some_iff] at hp
  exact hp.imp fun _ => And.left

/-- By induction on the path: the item above is made visible and, if it is collapsed, expanded. -/
private theorem Fresh.exists_visible (h : s.Fresh) (ho : Openable s.tracker.roots)
    (hp : descend? s.tracker.roots path = some item) :
    ∃ s', s.LeadsTo s' ∧ s'.Fresh ∧ s'.tracker = s.tracker ∧
      Visible s'.expanded [] s.tracker.roots path := by
  induction path using List.reverseRecOn generalizing item with
  | nil => cases hp
  | append_singleton above i ih =>
    by_cases hn : above = []
    · subst hn
      exact ⟨s, .refl s, h, rfl, visible_singleton.mpr ⟨item, hp⟩⟩
    · obtain ⟨t, ht⟩ := exists_parent hn hp
      obtain ⟨s', hlead, hfresh, htracker, hv⟩ := ih ht
      have hrows : s'.rows = visibleRows s'.expanded s.tracker.roots := htracker ▸ hfresh
      rcases child_visible_or_collapsed hrows ho hv hn hp with hc | ⟨row, r, hlead', hr, rfl, hx, hshut, hopen⟩
      · exact ⟨s', hlead, hfresh, htracker, hc⟩
      · have hfresh' : Fresh { s' with row } := hfresh
        obtain ⟨rows, -, he, -⟩ := hfresh'.expand hr hx hshut
        have hall := (hlead.trans hlead').trans (leadsTo_expandOrDescend _)
        rw [he] at hall
        refine ⟨_, hall, he ▸ expandOrDescend_fresh hfresh', htracker, hopen _ ?_ (List.mem_cons_self ..)⟩
        exact fun q hq => mem_cons_filter_ne.mpr (.inl hq)

/-- Rows that are listed for other expansions than those of the session show the item, or one of those on the
way to it is collapsed, and expanding that one lists the rows again. -/
private theorem Listed.mem_paths_or_exists_fresh (h : s.Listed) (ho : Openable s.tracker.roots)
    (hp : descend? s.tracker.roots path = some item) : path ∈ s.rows.map Row.path ∨
      ∃ s', s.LeadsTo s' ∧ s'.Fresh ∧ s'.tracker = s.tracker := by
  obtain ⟨expanded, hrows⟩ := h
  rw [hrows, mem_paths_visibleRows]
  induction path using List.reverseRecOn generalizing item with
  | nil => cases hp
  | append_singleton above i ih =>
    by_cases hn : above = []
    · subst hn
      exact .inl (visible_singleton.mpr ⟨item, hp⟩)
    · obtain ⟨t, ht⟩ := exists_parent hn hp
      refine (ih ht).elim (fun hv => (child_visible_or_collapsed hrows ho hv hn hp).imp_right ?_) .inr
      rintro ⟨row, r, hlead, hr, -, hx, hshut, -⟩
      have hsel : selected? { s with row } = some r := hr
      have hall := hlead.trans (leadsTo_expandOrDescend _)
      rw [expandOrDescend_of_collapsed hsel hx hshut] at hall
      exact ⟨_, hall, rfl, rfl⟩

/-- The outline of a document whose labels come from its content. -/
private theorem openable_of_upToDate (hs : s.tracker.source = .content) (hu : s.tracker.UpToDate) :
    Openable s.tracker.roots := by
  have hroots : s.tracker.roots = [] ∨ ∃ source n, s.tracker.roots = Outline.ofNode source n := by
    rw [hu]
    cases s.tracker.document with
    | none => exact .inl rfl
    | some d =>
      simp only [Tracker.outlineFor, Tracker.build, hs]
      cases parse d.text with
      | error e => exact .inl rfl
      | ok root =>
        cases root with
        | none => exact .inl rfl
        | some n => exact .inr ⟨d.text, n, rfl⟩
  intro path item hp hc
  rcases hroots with hroots | ⟨source, n, hroots⟩ <;> rw [hroots] at hp
  · cases path with
    | nil => cases hp
    | cons i path =>
      rw [Tracker.descend?_cons] at hp
      cases hp
  · exact (Outline.grown_of_descend? hp).isExpandable hc

/-- In a session that tracks a document by its content and holds the outline of that document, with rows that
were listed from it for whatever expansions, be they those of the session or not. Every item of the outline, at
whatever depth, can be selected by moving up and down and expanding. -/
theorem every_item_reachable (hs : s.tracker.source = .content) (hu : s.tracker.UpToDate) (h : s.Listed)
    (hp : s.tracker.node? path = some item) : ∃ ops : List Operation,
      (∀ op ∈ ops, op = .moveUp ∨ op = .moveDown ∨ op = .expandOrDescend) ∧
      ∃ r, (s.perform ops).selected? = some r ∧ r.path = path := by
  have ho := openable_of_upToDate hs hu
  obtain ⟨s', hlead, hlisted⟩ : ∃ s', s.LeadsTo s' ∧ path ∈ s'.rows.map Row.path := by
    rcases h.mem_paths_or_exists_fresh ho hp with hlisted | ⟨s', hlead, hfresh, htracker⟩
    · exact ⟨s, .refl s, hlisted⟩
    · have ho' : Openable s'.tracker.roots := by rwa [htracker]
      have hp' : descend? s'.tracker.roots path = some item := by rwa [htracker]
      obtain ⟨s'', hlead', hfresh', htracker', hv⟩ := hfresh.exists_visible ho' hp'
      refine ⟨s'', hlead.trans hlead', ?_⟩
      rw [hfresh', htracker']
      exact mem_paths_visibleRows.mpr hv
  obtain ⟨row, r, hlead', hr, hpath⟩ := exists_selected hlisted
  obtain ⟨ops, hops, hperform⟩ := hlead.trans hlead'
  refine ⟨ops, hops, r, ?_, hpath⟩
  rw [hperform]
  exact hr

/-- The document was opened again from the list of files, where nothing is left expanded, while the rows still
show an expanded item. -/
theorem every_item_reachable_from_stale_rows :
    ∃ s item, (started (.ofFolder [] []) {} [⟨"a.yaml", "yaml", "a:\n  b:\n    c:\n      d: 1\n"⟩] []).perform
        [.expandOrDescend, .openSelected] = s ∧
      ¬ s.Fresh ∧ s.rows.map Row.path = [[0], [0, 0]] ∧ s.tracker.node? [0, 0, 0] = some item ∧
      ∃ ops : List Operation, (∀ op ∈ ops, op = .moveUp ∨ op = .moveDown ∨ op = .expandOrDescend) ∧
        ∃ r, (s.perform ops).selected? = some r ∧ r.path = [0, 0, 0] := by
  let opened := started (.ofFolder [] []) {} [⟨"a.yaml", "yaml", "a:\n  b:\n    c:\n      d: 1\n"⟩] []
  let s := opened.perform [.expandOrDescend, .openSelected]
  have hshown : opened.Shown := started_shown (by decide) ..
  have hs : Shown s := act_shown hshown [.own .expandOrDescend, .own .openSelected]
  have hstale : ¬ s.Fresh := by decide +kernel
  have hrows : s.rows.map Row.path = [[0], [0, 0]] := by decide +kernel
  have hsource : s.tracker.source = .content := by decide +kernel
  have hnode : (s.tracker.node? [0, 0, 0]).isSome = true := by decide +kernel
  obtain ⟨item, hitem⟩ := Option.isSome_iff_exists.mp hnode
  exact ⟨s, item, rfl, hstale, hrows, hitem,
    every_item_reachable hsource hs.inStep.upToDate hs.listed hitem⟩

end Session

end YamlOutline
