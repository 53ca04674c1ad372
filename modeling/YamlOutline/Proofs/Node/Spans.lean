import YamlOutline.Parse
import YamlOutline.Proofs.Syntax.StreamRules

/-! Spans of nodes. The start of a span is that of a leaf and its end that of another one without the
blanks there, and the leaves stand in order; so the spans are as well nested as the parts of the tree
that they come from. -/

namespace YamlOutline

open Syntax (Span Tree Kind Ordered AllGenuine HasContent ordered_append_iff)
open Text (IsBoundary size)

variable {cs : List Char} {lo hi mid : Nat} {ls ms before after : List (Kind × Span)}

/-- The span is a piece of the text. -/
structure Syntax.Span.Fits (cs : List Char) (s : Span) : Prop where
  ordered : s.start ≤ s.stop
  inText : s.stop ≤ size cs
  startsAt : IsBoundary cs s.start
  stopsAt : IsBoundary cs s.stop

/-- The span lies inside the other one. -/
structure Syntax.Span.Within (s outer : Span) : Prop where
  start : outer.start ≤ s.start
  stop : s.stop ≤ outer.stop

namespace Node

mutual
/-- Every span in the node is a piece of the text, inside the span of the node or entry around it,
and behind the spans of the entries or items before it. -/
def WellNested (cs : List Char) : Node → Prop
  | .mapping span entries =>
    span.Fits cs ∧ entries.Pairwise (fun e f => e.span.stop ≤ f.span.start) ∧
      EntriesNested cs span entries
  | .sequence span items =>
    span.Fits cs ∧ items.Pairwise (fun m n => m.span.stop ≤ n.span.start) ∧
      ItemsNested cs span items
  | .scalar span _ | .null span => span.Fits cs

def EntriesNested (cs : List Char) (outer : Span) : List Entry → Prop
  | [] => True
  | .bare span _ :: es => span.Fits cs ∧ span.Within outer ∧ EntriesNested cs outer es
  | .pair span _ value :: es =>
    span.Fits cs ∧ span.Within outer ∧ value.span.Within span ∧ WellNested cs value ∧
      EntriesNested cs outer es

def ItemsNested (cs : List Char) (outer : Span) : List Node → Prop
  | [] => True
  | n :: ns => n.span.Within outer ∧ WellNested cs n ∧ ItemsNested cs outer ns
end

/-! ### The extent of leaves -/

/-- Where the content of leaves ends. -/
def stopOf (source : List Char) (ls : List (Kind × Span)) : Nat :=
  match ls.reverse.find? fun l => isToken l.1 l.2 with
  | some (_, s) => s.start + size (Text.trimEnd ((Text.slice? source s.start s.stop).getD []))
  | none => (ls.head?.map (·.2.start)).getD 0

/-- The span of a tree with the leaves `ls`. -/
def extent (source : List Char) (ls : List (Kind × Span)) : Span :=
  ⟨(ls.head?.map (·.2.start)).getD 0, stopOf source ls⟩

mutual
theorem start?_eq : (t : Tree) → t.start? = t.leaves.head?.map (·.2.start)
  | .leaf _ _ => by
    rw [Tree.start?, Tree.leaves_leaf]
    rfl
  | .node _ ts => by rw [Tree.start?, Tree.leaves_node, startList?_eq ts]

theorem startList?_eq : (ts : List Tree) →
    Tree.startList? ts = (Tree.leavesList ts).head?.map (·.2.start)
  | [] => by simp [Tree.startList?]
  | t :: ts => by
    rw [Tree.startList?, start?_eq t, startList?_eq ts, Tree.leavesList_cons, List.head?_append]
    cases t.leaves.head? <;> rfl
end

mutual
theorem stop?_eq : (t : Tree) → t.stop? = t.leaves.getLast?.map (·.2.stop)
  | .leaf _ _ => by
    rw [Tree.stop?, Tree.leaves_leaf]
    rfl
  | .node _ ts => by rw [Tree.stop?, Tree.leaves_node, stopList?_eq ts]

theorem stopList?_eq : (ts : List Tree) →
    Tree.stopList? ts = (Tree.leavesList ts).getLast?.map (·.2.stop)
  | [] => by simp [Tree.stopList?]
  | t :: ts => by
    rw [Tree.stopList?, stop?_eq t, stopList?_eq ts, Tree.leavesList_cons, List.getLast?_append]
    cases (Tree.leavesList ts).getLast? <;> rfl
end

mutual
theorem lastToken?_eq : (t : Tree) →
    lastToken? t = (t.leaves.reverse.find? fun l => isToken l.1 l.2).map (·.2)
  | .leaf k s => by
    rw [lastToken?, Tree.leaves_leaf, List.reverse_singleton, List.find?_singleton]
    split <;> rfl
  | .node _ ts => by rw [lastToken?, Tree.leaves_node, lastTokenOf?_eq ts]

theorem lastTokenOf?_eq : (ts : List Tree) →
    lastTokenOf? ts = ((Tree.leavesList ts).reverse.find? fun l => isToken l.1 l.2).map (·.2)
  | [] => by simp [lastTokenOf?]
  | t :: ts => by
    rw [lastTokenOf?, lastToken?_eq t, lastTokenOf?_eq ts, Tree.leavesList_cons, List.reverse_append,
      List.find?_append]
    cases List.find? _ (Tree.leavesList ts).reverse <;> rfl
end

theorem contentSpan_eq (source : List Char) (t : Tree) : contentSpan source t = extent source t.leaves := by
  rw [contentSpan, contentStop, lastToken?_eq, Tree.span, start?_eq, extent, stopOf]
  cases List.find? _ t.leaves.reverse <;> rfl

/-- Among the leaves is one that is content. -/
def Content (ls : List (Kind × Span)) : Prop :=
  ∃ l ∈ ls, isToken l.1 l.2 = true

private theorem Content.ne_nil (h : Content ls) : ls ≠ [] := by
  rintro rfl
  obtain ⟨l, hl, -⟩ := h
  cases hl

/-- Without the blanks at its end, a piece of the text ends no later. -/
theorem trimmed_stop {s : Span} (hs : s.start ≤ s.stop) (hb : IsBoundary cs s.start)
    (hb' : IsBoundary cs s.stop) :
    s.start + size (Text.trimEnd ((Text.slice? cs s.start s.stop).getD [])) ≤ s.stop ∧
      IsBoundary cs (s.start + size (Text.trimEnd ((Text.slice? cs s.start s.stop).getD []))) := by
  obtain ⟨before, piece, after, hcs, hstart, hstop⟩ := hb.cut hb' hs
  have hslice : Text.slice? cs s.start s.stop = some piece := by
    rw [hcs, hstart, hstop, Text.slice?_append]
  obtain ⟨blanks, hblanks⟩ : Text.trimEnd piece <+: piece := by
    rw [Text.trimEnd_eq_rdropWhile]
    exact List.rdropWhile_prefix _ _
  rw [hslice, Option.getD_some]
  generalize Text.trimEnd piece = kept at hblanks ⊢
  subst hblanks
  refine ⟨?_, before ++ kept, ⟨blanks ++ after, by simp [hcs]⟩, by rw [Text.size_append, hstart]⟩
  rw [hstop, hstart, Text.size_append]
  omega

theorem start_le_of_mem {l : Kind × Span} (h : Ordered cs lo hi ls) (hl : l ∈ ls) :
    (extent cs ls).start ≤ l.2.start := by
  cases ls with
  | nil => cases hl
  | cons f ls =>
    obtain ⟨-, hf, -, -, hls⟩ := h
    rcases List.mem_cons.mp hl with rfl | hl
    · exact Nat.le_refl _
    · exact hf.trans (hls.of_mem hl).1

private theorem start_mem (cs : List Char) (h : ls ≠ []) :
    ∃ l ∈ ls, (extent cs ls).start = l.2.start := by
  obtain ⟨f, ls, rfl⟩ := List.exists_cons_of_ne_nil h
  exact ⟨f, List.mem_cons_self, rfl⟩

/-- The last leaf with content decides where the content ends. -/
theorem stop_of_content (cs : List Char) (h : Content ls) : ∃ l ∈ ls,
    ls.reverse.find? (fun l => isToken l.1 l.2) = some l ∧
    stopOf cs ls = l.2.start + size (Text.trimEnd ((Text.slice? cs l.2.start l.2.stop).getD [])) := by
  obtain ⟨m, hm, ht⟩ := h
  cases hfind : ls.reverse.find? fun l => isToken l.1 l.2 with
  | none => simp [List.find?_eq_none.mp hfind m (List.mem_reverse.mpr hm)] at ht
  | some l =>
    exact ⟨l, List.mem_reverse.mp (List.mem_of_find?_eq_some hfind), rfl, by rw [stopOf, hfind]⟩

theorem extent_fits (h : Ordered cs lo hi ls) (hc : Content ls) :
    (extent cs ls).Fits cs ∧ lo ≤ (extent cs ls).start ∧ (extent cs ls).stop ≤ hi := by
  obtain ⟨l, hl, -, hstop⟩ := stop_of_content cs hc
  obtain ⟨f, hf, hstart⟩ := start_mem cs hc.ne_nil
  obtain ⟨-, hls, hlhi, hb, hb'⟩ := h.of_mem hl
  obtain ⟨hle, hbstop⟩ := trimmed_stop hls hb hb'
  obtain ⟨hlo, -, -, hbstart, -⟩ := h.of_mem hf
  have hstop : (extent cs ls).stop = _ := hstop
  have hfl := start_le_of_mem h hl
  rw [← hstop] at hle hbstop
  refine ⟨⟨?_, hbstop.le, hstart ▸ hbstart, hbstop⟩, hstart ▸ hlo, hle.trans hlhi⟩
  rw [hstop]
  omega

/-- More leaves have a larger extent. -/
private theorem extent_within (h : Ordered cs lo hi (before ++ ls ++ after)) (hc : Content ls) :
    (extent cs ls).Within (extent cs (before ++ ls ++ after)) := by
  constructor
  · obtain ⟨f, hf, hstart⟩ := start_mem cs hc.ne_nil
    rw [hstart]
    exact start_le_of_mem h (by simp [hf])
  · obtain ⟨mid, hbefore, hafter⟩ := ordered_append_iff.mp h
    obtain ⟨lo', -, hls⟩ := ordered_append_iff.mp hbefore
    have hmid := (extent_fits hls hc).2.2
    obtain ⟨l, -, hl, hstop⟩ := stop_of_content cs hc
    cases hfind : after.reverse.find? fun l => isToken l.1 l.2 with
    | none =>
      have hall : (before ++ ls ++ after).reverse.find? (fun l => isToken l.1 l.2) = some l := by
        simp [List.find?_append, hfind, hl]
      have : stopOf cs (before ++ ls ++ after) = stopOf cs ls := by
        rw [stopOf, hall, hstop]
      exact Nat.le_of_eq this.symm
    | some m =>
      have hall : (before ++ ls ++ after).reverse.find? (fun l => isToken l.1 l.2) = some m := by
        simp [List.find?_append, hfind]
      have hm := hafter.of_mem (List.mem_reverse.mp (List.mem_of_find?_eq_some hfind))
      have hle : m.2.start ≤ stopOf cs (before ++ ls ++ after) := by
        rw [stopOf, hall]
        exact Nat.le_add_right _ _
      exact hmid.trans (hm.1.trans hle)

/-! ### Nodes of trees -/

/-- The span is the extent of some of the leaves, all that stand between its two ends. -/
def Stretch (cs : List Char) (ls : List (Kind × Span)) (s : Span) : Prop :=
  ∃ before ms after, ls = before ++ ms ++ after ∧ Content ms ∧ s = extent cs ms

private theorem Stretch.all (h : Content ls) : Stretch cs ls (extent cs ls) :=
  ⟨[], ls, [], by simp, h, rfl⟩

private theorem Stretch.mono {s : Span} (h : Stretch cs ls s) (before after : List (Kind × Span)) :
    Stretch cs (before ++ ls ++ after) s := by
  obtain ⟨b, ms, a, rfl, hc, rfl⟩ := h
  exact ⟨before ++ b, ms, a ++ after, by simp, hc, rfl⟩

private theorem Stretch.fits {s : Span} (h : Stretch cs ls s) (ho : Ordered cs lo hi ls) :
    s.Fits cs ∧ lo ≤ s.start ∧ s.stop ≤ hi := by
  obtain ⟨b, ms, a, rfl, hc, rfl⟩ := h
  obtain ⟨mid, hbefore, hafter⟩ := ordered_append_iff.mp ho
  obtain ⟨lo', hb, hms⟩ := ordered_append_iff.mp hbefore
  obtain ⟨hfits, hlo, hhi⟩ := extent_fits hms hc
  exact ⟨hfits, hb.le.trans hlo, hhi.trans hafter.le⟩

private theorem Stretch.within {s : Span} (h : Stretch cs ls s) (ho : Ordered cs lo hi ls) :
    s.Within (extent cs ls) := by
  obtain ⟨b, ms, a, rfl, hc, rfl⟩ := h
  exact extent_within ho hc

theorem content_of_genuine {k : Kind} {ts : List Tree} (h : Syntax.Genuine cs (.node k ts)) :
    Content (Tree.leavesList ts) :=
  h.1

theorem content_of_leaf {k : Kind} {s : Span} (h : Syntax.Genuine cs (.leaf k s))
    (hk : isAside k = false) : Content [(k, s)] := by
  have hlt : s.start < s.stop := h.resolve_left (by simp [hk])
  have hkind : k ≠ .comment ∧ k ≠ .blockText := by
    constructor <;> rintro rfl <;> cases hk
  exact ⟨(k, s), by simp, by simp [isToken, hlt, hkind]⟩

theorem inside?_none {depth : Nat} {xs : List Tree} (h : ∀ t ∈ xs, t.IsDecoration) : inside? cs depth xs = none := by
  induction xs with
  | nil => rfl
  | cons t xs ih =>
    obtain ⟨ht, hxs⟩ := List.forall_mem_cons.mp h
    rw [inside?, if_pos (Syntax.isAside_of_isDecoration ht), ih hxs]

theorem inside?_decorated {depth : Nat} {xs : List Tree} (h : ∀ t ∈ xs, t.IsDecoration)
    {content : Tree} (hcontent : isAside content.kind = false) :
    inside? cs depth (xs ++ [content]) = ofTree? cs depth content := by
  induction xs with
  | nil => rw [List.nil_append, inside?, if_neg (by simp [hcontent])]
  | cons t xs ih =>
    obtain ⟨ht, hxs⟩ := List.forall_mem_cons.mp h
    rw [List.cons_append, inside?, if_pos (Syntax.isAside_of_isDecoration ht), ih hxs]

/-- What `WellNested` says of an entry, the entries around it apart. -/
def EntryNested (cs : List Char) (e : Entry) : Prop :=
  e.span.Fits cs ∧ ∀ v, e.value? = some v → v.span.Within e.span ∧ v.WellNested cs

theorem entriesNested_iff {outer : Span} {es : List Entry} :
    EntriesNested cs outer es ↔ ∀ e ∈ es, e.span.Within outer ∧ EntryNested cs e := by
  induction es with
  | nil => simp [EntriesNested]
  | cons e es ih =>
    cases e with
    | bare s key => simp [EntriesNested, EntryNested, Entry.span, Entry.value?, ih, and_left_comm, and_assoc]
    | pair s key v =>
      simp [EntriesNested, EntryNested, Entry.span, Entry.value?, ih, and_left_comm, and_assoc]

theorem itemsNested_iff {outer : Span} {ns : List Node} :
    ItemsNested cs outer ns ↔ ∀ n ∈ ns, n.span.Within outer ∧ n.WellNested cs := by
  induction ns with
  | nil => simp [ItemsNested]
  | cons n ns ih => simp [ItemsNested, ih, and_assoc]

/-- Parts of a node that come one behind the other from the leaves, each with the property `P`. -/
structure Lined {α : Type} (cs : List Char) (ls : List (Kind × Span)) (span : α → Span) (P : α → Prop)
    (xs : List α) : Prop where
  inOrder : xs.Pairwise fun x y => (span x).stop ≤ (span y).start
  each : ∀ x ∈ xs, Stretch cs ls (span x) ∧ P x

section
variable {α : Type} {span : α → Span} {P : α → Prop} {x : α} {xs : List α}

private theorem Lined.nil : Lined cs ls span P [] :=
  ⟨.nil, nofun⟩

private theorem Lined.behind (h : Lined cs ms span P xs) : Lined cs (ls ++ ms) span P xs :=
  ⟨h.inOrder, fun y hy => ⟨by simpa using (h.each y hy).1.mono ls [], (h.each y hy).2⟩⟩

private theorem Lined.cons (h : Lined cs ms span P xs) (hms : Ordered cs mid hi ms)
    (hx : Stretch cs ls (span x))
    (hls : Ordered cs lo mid ls) (hP : P x) : Lined cs (ls ++ ms) span P (x :: xs) := by
  refine ⟨List.pairwise_cons.mpr ⟨fun y hy => ?_, h.inOrder⟩,
    List.forall_mem_cons.mpr ⟨⟨by simpa using hx.mono [] ms, hP⟩, h.behind.each⟩⟩
  exact (hx.fits hls).2.2.trans ((h.each y hy).1.fits hms).2.1
end

mutual
private theorem ofTree?_nested (depth : Nat) : (t : Tree) → {lo hi : Nat} → {n : Node} →
    ofTree? cs depth t = some n → AllGenuine cs [t] → isAside t.kind = false →
    Ordered cs lo hi t.leaves → n.WellNested cs ∧ Stretch cs t.leaves n.span
  | .leaf k s, lo, hi, n, h, hg, hk, ho => by
    simp only [Syntax.allGenuine_leaf_cons, Syntax.allGenuine_nil, and_true] at hg
    rw [Tree.leaves_leaf] at ho ⊢
    have hc := content_of_leaf hg hk
    have hspan : contentSpan cs (.leaf k s) = extent cs [(k, s)] := by
      rw [contentSpan_eq, Tree.leaves_leaf]
    have hfits := (extent_fits ho hc).1
    rw [ofTree?] at h
    split at h <;> cases h
    · rw [verbatim, WellNested, span, hspan]
      exact ⟨hfits, .all hc⟩
    · rw [WellNested, span, hspan]
      exact ⟨hfits, .all hc⟩
  | .node k ts, lo, hi, n, h, hg, hk, ho => by
    simp only [Syntax.allGenuine_node_cons, Syntax.allGenuine_nil, and_true] at hg
    rw [Tree.leaves_node] at ho ⊢
    have hc := content_of_genuine hg.1
    have hspan : contentSpan cs (.node k ts) = extent cs (Tree.leavesList ts) := by
      rw [contentSpan_eq, Tree.leaves_node]
    have hfits := (extent_fits ho hc).1
    have hall : Stretch cs _ _ := .all hc
    rw [ofTree?] at h
    split at h
    · exact inside?_nested depth ts h hg.2 ho
    split at h
    · cases h
      rw [verbatim, WellNested, span, hspan]
      exact ⟨hfits, hall⟩
    rw [hspan] at h
    have hentries := entriesOf_nested depth ts hg.2 ho
    have hitems := itemsOf_nested depth ts hg.2 ho
    have hmapping : WellNested cs (.mapping (extent cs (Tree.leavesList ts)) (entriesOf cs depth ts)) := by
      rw [WellNested]
      exact ⟨hfits, hentries.inOrder, entriesNested_iff.mpr fun e he =>
        ⟨(hentries.each e he).1.within ho, (hentries.each e he).2⟩⟩
    have hsequence : WellNested cs (.sequence (extent cs (Tree.leavesList ts)) (itemsOf cs depth ts)) := by
      rw [WellNested]
      exact ⟨hfits, hitems.inOrder, itemsNested_iff.mpr fun m hm =>
        ⟨(hitems.each m hm).1.within ho, (hitems.each m hm).2⟩⟩
    split at h <;> cases h
    · exact ⟨hmapping, hall⟩
    · exact ⟨hmapping, hall⟩
    · exact ⟨hsequence, hall⟩
    · exact ⟨hsequence, hall⟩
    · rw [WellNested]
      exact ⟨hfits, hall⟩

private theorem inside?_nested (depth : Nat) : (ts : List Tree) → {lo hi : Nat} → {n : Node} →
    inside? cs depth ts = some n → AllGenuine cs ts → Ordered cs lo hi (Tree.leavesList ts) →
    n.WellNested cs ∧ Stretch cs (Tree.leavesList ts) n.span
  | [], _, _, _, h, _, _ => by
    rw [inside?] at h
    cases h
  | t :: ts, lo, hi, n, h, hg, ho => by
    rw [← List.singleton_append, Syntax.allGenuine_append] at hg
    rw [Tree.leavesList_cons] at ho ⊢
    obtain ⟨mid, ht, hts⟩ := ordered_append_iff.mp ho
    rw [inside?] at h
    split at h
    · obtain ⟨hn, hstretch⟩ := inside?_nested depth ts h hg.2 hts
      exact ⟨hn, by simpa using hstretch.mono t.leaves []⟩
    · rename_i hk
      obtain ⟨hn, hstretch⟩ := ofTree?_nested depth t h hg.1 (by simpa using hk) ht
      exact ⟨hn, by simpa using hstretch.mono [] (Tree.leavesList ts)⟩

private theorem valueOf?_nested (depth : Nat) :
    (ts : List Tree) → {pastColon : Bool} → {lo hi : Nat} →
    {n : Node} → valueOf? cs depth pastColon ts = some n → AllGenuine cs ts →
    Ordered cs lo hi (Tree.leavesList ts) →
    n.WellNested cs ∧ Stretch cs (Tree.leavesList ts) n.span
  | [], _, _, _, _, h, _, _ => by
    rw [valueOf?] at h
    cases h
  | t :: ts, pastColon, lo, hi, n, h, hg, ho => by
    rw [← List.singleton_append, Syntax.allGenuine_append] at hg
    rw [Tree.leavesList_cons] at ho ⊢
    obtain ⟨mid, ht, hts⟩ := ordered_append_iff.mp ho
    rw [valueOf?] at h
    split at h
    · rename_i hk
      have hk : isAside t.kind = false := by
        have hw := (Bool.and_eq_true_iff.mp hk).2
        generalize t.kind = k at hw
        cases k <;> first | rfl | cases hw
      obtain ⟨hn, hstretch⟩ := ofTree?_nested depth t h hg.1 hk ht
      exact ⟨hn, by simpa using hstretch.mono [] (Tree.leavesList ts)⟩
    · obtain ⟨hn, hstretch⟩ := valueOf?_nested depth ts h hg.2 hts
      exact ⟨hn, by simpa using hstretch.mono t.leaves []⟩

/-- The entries of the parts of a mapping, each from its own part. -/
private theorem entriesOf_nested (depth : Nat) : (ts : List Tree) → {lo hi : Nat} →
    AllGenuine cs ts → Ordered cs lo hi (Tree.leavesList ts) →
    Lined cs (Tree.leavesList ts) Entry.span (EntryNested cs) (entriesOf cs depth ts)
  | [], _, _, _, _ => by
    rw [entriesOf]
    exact .nil
  | .leaf k s :: ts, lo, hi, hg, ho => by
    rw [Syntax.allGenuine_leaf_cons] at hg
    rw [Tree.leavesList_cons] at ho ⊢
    obtain ⟨mid, -, hts⟩ := ordered_append_iff.mp ho
    rw [entriesOf]
    exact (entriesOf_nested depth ts hg.2 hts).behind
  | .node k parts :: ts, lo, hi, hg, ho => by
    rw [Syntax.allGenuine_node_cons] at hg
    rw [Tree.leavesList_cons, Tree.leaves_node] at ho ⊢
    obtain ⟨mid, hparts, hts⟩ := ordered_append_iff.mp ho
    have hrest := entriesOf_nested depth ts hg.2.2 hts
    have hc := content_of_genuine hg.1
    have hspan : contentSpan cs (.node k parts) = extent cs (Tree.leavesList parts) := by
      rw [contentSpan_eq, Tree.leaves_node]
    have hfits := (extent_fits hparts hc).1
    have hall : Stretch cs _ _ := .all hc
    rw [entriesOf, hspan]
    split
    · split
      · rename_i v hv
        obtain ⟨hn, hv⟩ := valueOf?_nested (depth + 1) parts hv hg.2.1 hparts
        exact hrest.cons hts hall hparts ⟨hfits, by rintro w ⟨⟩; exact ⟨hv.within hparts, hn⟩⟩
      · exact hrest.cons hts hall hparts ⟨hfits, nofun⟩
    split
    · exact hrest.cons hts hall hparts ⟨hfits, nofun⟩
    · exact hrest.behind

/-- The items of the parts of a sequence, each from its own part. -/
private theorem itemsOf_nested (depth : Nat) : (ts : List Tree) → {lo hi : Nat} →
    AllGenuine cs ts → Ordered cs lo hi (Tree.leavesList ts) →
    Lined cs (Tree.leavesList ts) Node.span (WellNested cs) (itemsOf cs depth ts)
  | [], _, _, _, _ => by
    rw [itemsOf]
    exact .nil
  | .leaf k s :: ts, lo, hi, hg, ho => by
    rw [Syntax.allGenuine_leaf_cons] at hg
    rw [Tree.leavesList_cons] at ho ⊢
    obtain ⟨mid, -, hts⟩ := ordered_append_iff.mp ho
    rw [itemsOf]
    exact (itemsOf_nested depth ts hg.2 hts).behind
  | .node k parts :: ts, lo, hi, hg, ho => by
    rw [Syntax.allGenuine_node_cons] at hg
    rw [Tree.leavesList_cons, Tree.leaves_node] at ho ⊢
    obtain ⟨mid, hparts, hts⟩ := ordered_append_iff.mp ho
    have hrest := itemsOf_nested depth ts hg.2.2 hts
    have hc := content_of_genuine hg.1
    have hspan : contentSpan cs (.node k parts) = extent cs (Tree.leavesList parts) := by
      rw [contentSpan_eq, Tree.leaves_node]
    have hfits := (extent_fits hparts hc).1
    have hall : Stretch cs _ _ := .all hc
    rw [itemsOf, hspan]
    split
    · have hentry {e : Entry} (hs : e.span = extent cs (Tree.leavesList parts)) (he : EntryNested cs e) :
          WellNested cs (.mapping (extent cs (Tree.leavesList parts)) [e]) := by
        rw [WellNested]
        refine ⟨hfits, List.pairwise_singleton _ _, entriesNested_iff.mpr ?_⟩
        rintro f hf
        rw [List.mem_singleton.mp hf, hs]
        exact ⟨⟨Nat.le_refl _, Nat.le_refl _⟩, he⟩
      refine hrest.cons hts hall hparts ?_
      split
      · rename_i v hv
        obtain ⟨hn, hv⟩ := valueOf?_nested (depth + 2) parts hv hg.2.1 hparts
        exact hentry rfl ⟨hfits, by rintro w ⟨⟩; exact ⟨hv.within hparts, hn⟩⟩
      · exact hentry rfl ⟨hfits, nofun⟩
    · cases hin : inside? cs (depth + 1) parts with
      | none => exact hrest.cons hts hall hparts (by rw [Option.getD_none, WellNested]; exact hfits)
      | some n =>
        obtain ⟨hn, hstretch⟩ := inside?_nested (depth + 1) parts hin hg.2.1 hparts
        exact hrest.cons hts hstretch hparts hn
end

/-- The wrapper that stands for the first document of a text without fault. -/
private theorem bodyOf_nested {d : Tree} {ts : List Tree} {n : Node} (h : bodyOf cs d = some n)
    (hd : d ∈ Tree.preorderList ts) (hg : AllGenuine cs ts)
    (ho : Ordered cs 0 (size cs) (Tree.leavesList ts)) : n.WellNested cs := by
  obtain ⟨w, hw, hn⟩ := Option.bind_eq_some_iff.mp h
  have hk : isAside w.kind = false := by
    have hw := List.find?_some hw
    simp only [Bool.or_eq_true, beq_iff_eq] at hw
    rcases hw with hw | hw <;> rw [hw] <;> rfl
  have hwd := Tree.mem_preorder_of_mem_children (List.mem_of_find?_eq_some hw)
  have hw := (Tree.of_mem_preorderList ts hd).2 hwd
  obtain ⟨before, after, hl⟩ := (Tree.of_mem_preorderList ts hw).1
  rw [hl] at ho
  obtain ⟨_, ho, -⟩ := ordered_append_iff.mp ho
  obtain ⟨_, -, ho⟩ := ordered_append_iff.mp ho
  exact (ofTree?_nested 0 w hn (hg.of_mem hw) hk ho).1

end Node

/-- The spans of whatever is read from a text are well nested. -/
theorem parse_wellNested {text : String} {root : Node} (h : parse text = .ok (some root)) :
    root.WellNested text.toList := by
  unfold parse at h
  simp only at h
  split at h
  · cases h
  rename_i hf
  obtain ⟨ts, hts, hg, ho⟩ := Tree.ofText_read (by simpa using hf)
  obtain ⟨d, hd, hroot⟩ := Option.bind_eq_some_iff.mp (Except.ok.inj h)
  have hmem := List.mem_of_find?_eq_some hd
  have hkind := List.find?_some hd
  rw [hts, Tree.preorder, List.mem_cons] at hmem
  refine Node.bodyOf_nested hroot (hmem.resolve_left ?_) hg ho
  rintro rfl
  cases hkind

theorem parse_wellNested_flowInBlock : ∃ root,
    parse "a:\n- [é: [1, ], \"b\":c] # d\n- &x\n- e:\n    f\n" = .ok (some root) ∧
      root.WellNested "a:\n- [é: [1, ], \"b\":c] # d\n- &x\n- e:\n    f\n".toList := by
  have hread : (parse "a:\n- [é: [1, ], \"b\":c] # d\n- &x\n- e:\n    f\n").toOption.join.isSome := by
    decide +kernel
  obtain ⟨root, hroot⟩ := Option.isSome_iff_exists.mp hread
  have hroot : parse "a:\n- [é: [1, ], \"b\":c] # d\n- &x\n- e:\n    f\n" = .ok (some root) := by
    cases hp : parse "a:\n- [é: [1, ], \"b\":c] # d\n- &x\n- e:\n    f\n" with
    | error e => simp [hp, Except.toOption] at hroot
    | ok r => simpa [hp, Except.toOption] using hroot
  exact ⟨root, hroot, parse_wellNested hroot⟩

end YamlOutline
