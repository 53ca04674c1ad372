import YamlOutline.Proofs.Node.Spans

/-! Every leaf of the tree of a text is a stretch of the text, also where the text is malformed: a rule that
fails does so at a place of the text, and passing over what is at fault goes on at one. -/

namespace YamlOutline.Syntax
open Text (IsBoundary)
variable {cs : List Char} {ts us : List Tree} {s t : Layout} {p q r : Properties} {i : Indent} {rules : Rules}
  {f : Fault}

/-- The leaves are stretches of the text. -/
def AllWithin (cs : List Char) (ts : List Tree) : Prop :=
  ∀ l ∈ Tree.leavesList ts, l.2.Fits cs

@[simp] theorem allWithin_nil : AllWithin cs [] := by
  simp [AllWithin]

@[simp] theorem allWithin_append : AllWithin cs (ts ++ us) ↔ AllWithin cs ts ∧ AllWithin cs us := by
  simp [AllWithin, or_imp, forall_and]

namespace AllWithin

private theorem append (h : AllWithin cs ts) (h' : AllWithin cs us) : AllWithin cs (ts ++ us) :=
  allWithin_append.mpr ⟨h, h'⟩

private theorem node (h : AllWithin cs ts) {k : Kind} : AllWithin cs [.node k ts] := by
  simpa [AllWithin] using h

private theorem leaf {start stop : Nat} (hle : start ≤ stop) (hstart : IsBoundary cs start)
    (hstop : IsBoundary cs stop) {k : Kind} : AllWithin cs [.leaf k ⟨start, stop⟩] := by
  intro l hl
  rw [Tree.leavesList_cons, Tree.leaves_leaf, Tree.leavesList_nil, List.append_nil, List.mem_singleton] at hl
  exact hl ▸ ⟨hle, hstop.le, hstart, hstop⟩

private theorem drop (h : AllWithin cs ts) (n : Nat) : AllWithin cs (ts.drop n) := by
  rw [← List.take_append_drop n ts, allWithin_append] at h
  exact h.2

/-- The parts of a tree begin where leaves do. -/
theorem start {t u : Tree} (h : AllWithin cs [t]) (hu : u ∈ t.preorder) : IsBoundary cs u.span.start := by
  obtain ⟨⟨before, after, hleaves⟩, -⟩ := Tree.of_mem_preorder t hu
  rw [Tree.span, Node.start?_eq]
  cases hl : u.leaves.head? with
  | none => exact .zero cs
  | some l => exact (h l (by simp [hleaves, List.mem_of_mem_head? hl])).startsAt

end AllWithin

private theorem Ordered.within {lo hi : Nat} (h : Ordered cs lo hi (Tree.leavesList ts)) :
    AllWithin cs ts := by
  intro l hl
  obtain ⟨-, hle, -, hstart, hstop⟩ := h.of_mem hl
  exact ⟨hle, hstop.le, hstart, hstop⟩

/-! ### States and faults -/

/-- A state between two places of the text. -/
structure Layout.Within (cs : List Char) (s : Layout) : Prop where
  inText : s.cursor.In cs
  stop : IsBoundary cs s.stop
  comments : AllWithin cs s.comments

/-- Reading stops at a place of the text, and goes on at one. -/
structure Fault.Within (cs : List Char) (f : Fault) : Prop where
  stop : IsBoundary cs f.stop
  next : ∀ s, f.next? = some s → s.Within cs

private theorem Fault.Within.final (h : f.Within cs) : f.final.Within cs :=
  ⟨h.stop, fun s hs => h.next s (Option.filter_eq_some_iff.mp hs).1⟩

namespace Layout

private theorem after_within {p : Cursor} (h : p.In cs) : (after p).Within cs :=
  ⟨(after_passed h).1, h.boundary, (after_laid h).within⟩

private theorem ofText_within (cs : List Char) : (ofText cs).Within cs :=
  ⟨(ofText_passed cs).1, (Cursor.ofText_in cs).boundary, (ofText_laid cs).within⟩

private theorem Within.settle (h : s.Within cs) : s.settle.Within cs :=
  ⟨h.inText, h.stop, allWithin_nil⟩

private theorem Within.leaf (h : s.Within cs) (k : Kind) (n : Nat) :
    AllWithin cs [.leaf k (s.cursor.spanOf n)] :=
  .leaf (s.cursor.offset_le_drop n) h.inText.boundary (h.inText.drop n).boundary

private theorem Within.drop (h : s.Within cs) (n : Nat) : (after (s.cursor.drop n)).Within cs :=
  after_within (h.inText.drop n)

private theorem Within.token (h : s.Within cs) (k : Kind) (n : Nat) : AllWithin cs (s.token k n).1 ∧
    (s.token k n).2.Within cs :=
  ⟨h.comments.append (h.leaf k n), h.drop n⟩

end Layout

/-! ### Steps -/

/-- What a step reads has the property, or else it fails at a place of the text. -/
def Keeps {α : Type} (cs : List Char) (Q : α → Prop) : Except Fault α → Prop
  | .ok a => Q a
  | .error f => f.Within cs

section
variable {α β : Type} {P Q : α → Prop} {x : Except Fault α}

private theorem Keeps.bind {R : β → Prop} {k : α → Except Fault β} (h : Keeps cs P x)
    (hk : ∀ a, P a → Keeps cs R (k a)) : Keeps cs R (x >>= k) := by
  cases x with
  | ok a => exact hk a h
  | error f => exact h

private theorem Keeps.ite {c : Prop} [Decidable c] {y : Except Fault α} (hx : c → Keeps cs Q x)
    (hy : ¬c → Keeps cs Q y) :
    Keeps cs Q (if c then x else y) := by
  split
  · exact hx ‹_›
  · exact hy ‹_›

private theorem Keeps.final (h : Keeps cs Q x) : Keeps cs Q (x.mapError .final) := by
  cases x with
  | ok a => exact h
  | error f => exact h.final

private theorem Layout.Within.fault (h : s.Within cs) : Keeps cs Q s.fault :=
  ⟨h.stop, fun _ hs => Option.some.inj hs ▸ h⟩

end

/-- Parts of a tree and the state after them, in the text. -/
def Reads (cs : List Char) (a : List Tree × Layout) : Prop :=
  AllWithin cs a.1 ∧ a.2.Within cs

/-- A tree and the state after it, in the text. -/
def ReadsTree (cs : List Char) (a : Tree × Layout) : Prop :=
  AllWithin cs [a.1] ∧ a.2.Within cs

namespace Layout

private theorem pastDeeper_within (h : s.Within cs) (n : Nat) : (pastDeeper i n s).Within cs := by
  induction n generalizing s with
  | zero => exact h
  | succ n ih =>
    rw [pastDeeper]
    split
    · exact ih (h.drop _)
    · exact h

/-- Passing over what is at fault leaves an error where that stands. -/
private theorem Within.skip (h : s.Within cs) (hf : f.Within cs) (welcome : Layout → Bool) :
    Keeps cs (Reads cs) (s.skip i f welcome) := by
  unfold Layout.skip
  split
  · rename_i t ht
    have hu := pastDeeper_within (i := i) (hf.next t ht) t.rest.length
    generalize pastDeeper i t.rest.length t = u at hu
    dsimp only
    split
    · rename_i hwelcome
      -- The rows that are passed over end behind the place of the fault, or reading does not go on.
      have hlt : s.cursor.offset < u.stop := by simp_all
      exact ⟨.leaf hlt.le h.inText.boundary hu.stop, hu⟩
    · change Fault.Within cs (if _ then _ else _)
      split
      · exact ⟨hu.stop, fun _ hs => Option.some.inj hs ▸ hu⟩
      · exact hf
  · exact hf

private theorem Within.orSkip (h : s.Within cs) (welcome : Layout → Bool) {step : Step}
    (hstep : Keeps cs (Reads cs) step) : Keeps cs (Reads cs) (s.orSkip i welcome step) := by
  unfold Layout.orSkip
  split
  · exact h.skip hstep welcome
  · exact hstep

private theorem Within.token? (h : s.Within cs) (k : Kind) (n? : Option Nat) :
    Keeps cs (Reads cs) (s.token? k n?) := by
  unfold Layout.token?
  split
  · exact h.token k _
  · exact h.fault

private theorem Within.property (h : s.Within cs) : Keeps cs (Reads cs) s.property := by
  unfold Layout.property
  split
  · exact h.token? ..
  · exact h.token? ..

end Layout

/-! ### Properties -/

/-- Properties that stand in the text. -/
def Properties.Within (cs : List Char) (p : Properties) : Prop :=
  AllWithin cs p.before ∧ AllWithin cs p.trees

/-- Properties and the state after them, in the text. -/
def ReadsProperties (cs : List Char) (a : Properties × Layout) : Prop :=
  a.1.Within cs ∧ a.2.Within cs

namespace Properties

private theorem none_within : Within cs {} :=
  ⟨allWithin_nil, allWithin_nil⟩

private theorem Within.wrap (h : p.Within cs) {k : Kind} {comments : List Tree} {content : Tree}
    (hcomments : AllWithin cs comments) (hcontent : AllWithin cs [content]) :
    AllWithin cs (p.wrap k comments content) := by
  rw [AllWithin, leavesList_wrap]
  exact ((h.1.append h.2).append hcomments).append hcontent

private theorem Within.bare (h : p.Within cs) : AllWithin cs p.bare := by
  rw [AllWithin, leavesList_bare]
  exact allWithin_append.mpr h

private theorem Within.join? (hp : p.Within cs) (hq : q.Within cs) (h : p.join? q = some r) :
    r.Within cs := by
  have hleaves := join?_eq_some h
  have hall : AllWithin cs (r.before ++ r.trees) := by
    simp [hleaves, hp.1, hp.2, hq.1, hq.2]
  exact allWithin_append.mp hall

private theorem Within.read (hp : p.Within cs) (hs : s.Within cs) :
    Keeps cs (ReadsProperties cs) (p.read s) := by
  by_cases htwice : (if s.at? '&' then p.anchor else p.tag) = true
  · rw [Properties.read, if_pos htwice]
    exact hs.fault
  · rw [Properties.read, if_neg htwice]
    refine hs.property.bind ?_
    rintro ⟨ts, t⟩ ⟨hts, ht⟩
    refine ⟨⟨?_, ?_⟩, ht⟩
    · dsimp only
      split <;> simp [hp.1, hs.comments]
    · dsimp only
      split
      · exact hts.drop _
      · exact hp.2.append hts

end Properties

/-! ### Nodes inside brackets -/

/-- The rules of some level, each of which reads in the text. -/
structure Rules.Within (cs : List Char) (rules : Rules) : Prop where
  entries : ∀ {isMapping i s}, s.Within cs → Keeps cs (Reads cs) (rules.entries isMapping i s)
  value : ∀ {i compact level} {p : Properties} {s}, p.Within cs → s.Within cs →
    Keeps cs (Reads cs) (rules.value i compact level p s)
  items : ∀ {i s}, s.Within cs → Keeps cs (Reads cs) (rules.items i s)
  pairs : ∀ {i s}, s.Within cs → Keeps cs (Reads cs) (rules.pairs i s)
  documents : ∀ {bare s}, s.Within cs → Keeps cs (Reads cs) (rules.documents bare s)
  directives : ∀ {s}, s.Within cs → Keeps cs (Reads cs) (rules.directives s)

private theorem quoted_within {style : Quoted.Style} (hs : s.Within cs) :
    Keeps cs (ReadsTree cs) (quoted style i s) := by
  unfold quoted
  split
  · exact ⟨hs.leaf _ _, hs.drop _⟩
  · refine ⟨(hs.drop _).stop, fun u hu => ?_⟩
    rw [Option.ite_none_right_eq_some] at hu
    exact Option.some.inj hu.2 ▸ hs.drop _

private theorem collection_within (hrules : rules.Within cs) {isMapping : Bool} (hs : s.Within cs) :
    Keeps cs (ReadsTree cs) (collection rules isMapping i s) := by
  obtain ⟨hopen, ht⟩ := hs.settle.token .mark 1
  refine (hrules.entries ht).bind ?_
  rintro ⟨rest, u⟩ ⟨hrest, hu⟩
  exact ⟨(hopen.append hrest).node, hu⟩

private theorem flowContent_within (hrules : rules.Within cs) {inFlow : Bool} (hs : s.Within cs) :
    Keeps cs (ReadsTree cs) (flowContent rules inFlow i s) := by
  unfold flowContent
  split_ifs
  · exact collection_within hrules hs
  · exact collection_within hrules hs
  · exact quoted_within hs
  · exact quoted_within hs
  · split
    · exact ⟨hs.leaf _ _, hs.drop _⟩
    · exact hs.fault
  · exact ⟨hs.leaf _ _, hs.drop _⟩
  · exact hs.fault

private theorem flowProperties_within (hs : s.Within cs) :
    Keeps cs (ReadsProperties cs) (flowNode.properties i s) := by
  unfold flowNode.properties
  split
  · refine (Properties.none_within.read hs).bind ?_
    rintro ⟨p, t⟩ ⟨hp, ht⟩
    dsimp only
    split
    · exact hp.read ht
    · exact ⟨hp, ht⟩
  · exact ⟨Properties.none_within, hs⟩

/-- Parts of a tree, what is asked about them, and the state after them, in the text. -/
def ReadsParts (cs : List Char) (a : List Tree × Bool × Layout) : Prop :=
  AllWithin cs a.1 ∧ a.2.2.Within cs

private theorem flowNode_within (hrules : rules.Within cs) (hs : s.Within cs) :
    Keeps cs (ReadsParts cs) (flowNode rules i s) := by
  refine (flowProperties_within hs).bind ?_
  rintro ⟨p, t⟩ ⟨hp, ht⟩
  dsimp only
  split_ifs
  · exact ⟨hp.bare, ht⟩
  · exact ht.fault
  · refine (flowContent_within hrules ht).bind ?_
    rintro ⟨content, u⟩ ⟨hcontent, hu⟩
    dsimp only
    split_ifs
    · exact ht.fault
    · exact ⟨hp.wrap ht.comments hcontent, hu⟩

private theorem flowValue_within (hrules : rules.Within cs) {isMapping : Bool} (hs : s.Within cs) :
    Keeps cs (Reads cs) (flowValue rules isMapping i s) := by
  obtain ⟨hcolon, ht⟩ := hs.token .valueMark 1
  unfold flowValue
  generalize s.token .valueMark 1 = step at hcolon ht
  obtain ⟨colon, t⟩ := step
  dsimp only at hcolon ht ⊢
  split_ifs
  · exact ⟨hcolon, ht⟩
  · have hnode := flowNode_within hrules (i := i) ht
    split
    · rename_i value _ u hok
      rw [hok] at hnode
      exact ⟨hcolon.append hnode.1, hnode.2⟩
    · rename_i f herror
      rw [herror] at hnode
      refine (ht.skip hnode _).bind ?_
      rintro ⟨skipped, u⟩ ⟨hskipped, hu⟩
      exact ⟨hcolon.append hskipped, hu⟩

private theorem flowEntry_within (hrules : rules.Within cs) {isMapping anyRow mustPair : Bool}
    (hs : s.Within cs) :
    Keeps cs (ReadsParts cs) (flowEntry rules isMapping anyRow mustPair i s) := by
  refine .ite (fun _ => ?_) fun _ => ?_
  · exact (flowValue_within hrules hs).bind fun _ h => h
  · refine (flowNode_within hrules hs).bind ?_
    rintro ⟨key, endsItself, t⟩ ⟨hkey, ht⟩
    refine .ite (fun _ => ?_) fun _ => .ite (fun _ => ht.fault) fun _ => ⟨hkey, ht⟩
    refine (flowValue_within hrules ht).bind ?_
    rintro ⟨value, u⟩ ⟨hvalue, hu⟩
    exact ⟨hkey.append hvalue, hu⟩

private theorem flowItem_within (hrules : rules.Within cs) {isMapping : Bool} (hs : s.Within cs) :
    Keeps cs (Reads cs) (flowItem rules isMapping i s) := by
  have hpair {us : List Tree} (hus : AllWithin cs us) : AllWithin cs (s.comments ++ [.node .flowPair us]) :=
    hs.comments.append hus.node
  unfold flowItem
  dsimp only
  split
  · obtain ⟨hmark, ht⟩ := hs.settle.token .mark 1
    generalize s.settle.token .mark 1 = step at hmark ht
    obtain ⟨mark, t⟩ := step
    dsimp only at hmark ht ⊢
    split
    · exact ⟨hpair hmark, ht⟩
    · refine (flowEntry_within hrules ht).bind ?_
      rintro ⟨pair, _, u⟩ ⟨hparts, hu⟩
      exact ⟨hpair (hmark.append hparts), hu⟩
  · refine (flowEntry_within hrules hs.settle).bind ?_
    rintro ⟨parts, isPair, u⟩ ⟨hparts, hu⟩
    refine ⟨?_, hu⟩
    cases isPair
    · exact hs.comments.append hparts
    · exact hpair hparts

private theorem flowClosing_within {isMapping : Bool} {a : List Tree × Layout} (hs : s.Within cs)
    (h : flowClosing isMapping i s = some a) : Reads cs a := by
  simp only [flowClosing, Option.ite_none_right_eq_some] at h
  exact Option.some.inj h.2 ▸ hs.token .mark 1

private theorem flowEntries_within (hrules : rules.Within cs) {isMapping : Bool}
    (hs : s.Within cs) :
    Keeps cs (Reads cs) (flowEntries rules isMapping i s) := by
  unfold flowEntries
  split
  · exact flowClosing_within hs ‹_›
  · refine (hs.orSkip _ (flowItem_within hrules hs)).bind ?_
    rintro ⟨item, t⟩ ⟨hitem, ht⟩
    dsimp only
    split
    · obtain ⟨hcomma, hu⟩ := ht.token .mark 1
      refine (hrules.entries hu).bind ?_
      rintro ⟨rest, v⟩ ⟨hrest, hv⟩
      exact ⟨(hitem.append hcomma).append hrest, hv⟩
    · split
      · rename_i mark u hclosing
        obtain ⟨hmark, hu⟩ := flowClosing_within ht hclosing
        exact ⟨hitem.append hmark, hu⟩
      · refine (ht.orSkip _ ht.fault).bind ?_
        rintro ⟨skipped, u⟩ ⟨hskipped, hu⟩
        obtain ⟨hmark, hv⟩ := hu.token .mark 1
        exact ⟨(hitem.append hskipped).append hmark, hv⟩

/-! ### Block nodes -/

private theorem pastComment_in {p : Cursor} (h : p.In cs) : (pastComment p).In cs :=
  (h.drop _).drop _

private theorem scalarBehind_within {p : Cursor} {stated : Option Nat} {floor : Nat} {header : Tree}
    (hp : p.In cs)
    (hheader : AllWithin cs [header]) : Keeps cs (ReadsTree cs) (scalarBehind stated floor header p) := by
  have hq := pastComment_in hp
  have hbeside : (pastBlanks p).In cs := hp.drop _
  have hcomment : AllWithin cs (header :: if commentLength (pastBlanks p) = 0 then [] else
      [.leaf .comment ((pastBlanks p).spanOf (commentLength (pastBlanks p)))]) := by
    refine AllWithin.append hheader (?_ : AllWithin cs (if _ then _ else _))
    split
    · exact allWithin_nil
    · exact .leaf (Cursor.offset_le_drop _ _) hbeside.boundary hq.boundary
  unfold scalarBehind
  refine .ite (fun _ => ?_) fun _ => ?_
  · exact ⟨hheader.node, Layout.after_within hp⟩
  · split
    · refine ⟨?_, nofun⟩
      dsimp only
      split
      · exact hp.boundary
      · exact (hq.drop _).boundary
    · rename_i k f hlines
      have htext : AllWithin cs
          [.leaf .blockText ⟨((pastComment p).drop f).offset, ((pastComment p).drop k).offset⟩] := by
        refine .leaf ?_ (hq.drop f).boundary (hq.drop k).boundary
        rw [← Nat.add_sub_cancel' (BlockScalar.lines_start_lt hlines).le, ← Cursor.drop_add]
        exact Cursor.offset_le_drop _ _
      exact ⟨(hcomment.append htext).node, Layout.after_within (hq.drop k)⟩
    · have hafter := Layout.after_within hq
      exact ⟨hcomment.node, hafter.inText, hp.boundary, hafter.comments⟩

private theorem blockScalar_within (hs : s.Within cs) :
    Keeps cs (ReadsTree cs) (blockScalar i s) := by
  unfold blockScalar
  split
  · exact hs.fault
  · exact scalarBehind_within (hs.inText.drop _) (hs.leaf _ _)

private theorem keyValue_within (hrules : rules.Within cs) {key : List Tree}
    (hkey : AllWithin cs key)
    (hs : s.Within cs) : Keeps cs (Reads cs) (keyValue rules i key s) := by
  obtain ⟨hcolon, ht⟩ := hs.token .valueMark 1
  refine (hrules.value Properties.none_within ht).bind ?_
  rintro ⟨value, u⟩ ⟨hvalue, hu⟩
  exact ⟨((hkey.append hcolon).append hvalue).node, hu⟩

private theorem rowProperties_within (hs : s.Within cs) :
    Keeps cs (ReadsProperties cs) (rowProperties s) := by
  refine .ite (fun _ => ?_) fun _ => ⟨Properties.none_within, hs⟩
  refine (Properties.none_within.read hs.settle).bind ?_
  rintro ⟨p, t⟩ ⟨hp, ht⟩
  exact .ite (fun _ => hp.read ht) fun _ => ⟨hp, ht⟩

private theorem noKey_within (hrules : rules.Within cs) (hs : s.Within cs) :
    Keeps cs (Reads cs) (plainKey.noKey rules i s) := by
  refine (flowContent_within hrules hs).bind ?_
  rintro ⟨_, t⟩ ⟨-, ht⟩
  exact ht.fault

private theorem plainKey_within (hrules : rules.Within cs) (hs : s.Within cs) :
    Keeps cs (Reads cs) (plainKey rules i s) := by
  refine (rowProperties_within hs).bind ?_
  rintro ⟨p, t⟩ ⟨hp, ht⟩
  refine .ite (fun _ => ⟨hp.bare, ht⟩) fun _ => .ite (fun _ => ht.fault) fun _ => ?_
  have hcontent : Keeps cs (ReadsTree cs) (flowContent rules false i t) := flowContent_within hrules ht
  split
  · rename_i content u hok
    rw [hok] at hcontent
    exact .ite (fun _ => ht.fault) fun _ => .ite
      (fun _ => ⟨hp.wrap allWithin_nil hcontent.1, hcontent.2⟩) fun _ => noKey_within hrules ht
  · exact noKey_within hrules ht

private theorem pair_within (hrules : rules.Within cs) (hs : s.Within cs) :
    Keeps cs (Reads cs) (pair rules i s) := by
  refine .ite (fun _ => ?_) fun _ => .ite (fun _ => ?_) fun _ => ?_
  · obtain ⟨hmark, ht⟩ := hs.settle.token .mark 1
    refine (hrules.value Properties.none_within ht).bind ?_
    rintro ⟨key, u⟩ ⟨hkey, hu⟩
    have hpart := hmark.append hkey
    refine .ite (fun _ => ?_) fun _ => ⟨hpart.node, hu⟩
    obtain ⟨hcolon, hv⟩ := hu.token .valueMark 1
    refine (hrules.value Properties.none_within hv).bind ?_
    rintro ⟨value, w⟩ ⟨hvalue, hw⟩
    exact ⟨((hpart.append hcolon).append hvalue).node, hw⟩
  · obtain ⟨hcolon, ht⟩ := hs.settle.token .valueMark 1
    refine (hrules.value Properties.none_within ht).bind ?_
    rintro ⟨value, u⟩ ⟨hvalue, hu⟩
    exact ⟨(hcolon.append hvalue).node, hu⟩
  · refine (plainKey_within hrules hs.settle).bind ?_
    rintro ⟨key, t⟩ ⟨hkey, ht⟩
    exact keyValue_within hrules hkey ht

/-- One entry of a block collection, or an error in its place, and the entries after it. -/
private theorem furtherEntries_within {entry : Step} {further : Layout → Step} (hs : s.Within cs)
    (hentry : Keeps cs (Reads cs) entry) (hfurther : ∀ {t}, t.Within cs → Keeps cs (Reads cs) (further t)) :
    Keeps cs (Reads cs) (do
      let (first, t) ← s.orSkip i (i.resumes false) entry
      let (rest, t) ← further t
      return (s.comments ++ first ++ rest, t)) := by
  refine (hs.orSkip _ hentry).bind ?_
  rintro ⟨first, t⟩ ⟨hfirst, ht⟩
  refine (hfurther ht).bind ?_
  rintro ⟨rest, u⟩ ⟨hrest, hu⟩
  exact ⟨(hs.comments.append hfirst).append hrest, hu⟩

private theorem blockPairs_within (hrules : rules.Within cs) (hs : s.Within cs) :
    Keeps cs (Reads cs) (blockPairs rules i s) := by
  refine .ite (fun _ => ⟨hs.comments, hs.settle⟩) fun _ => ?_
  exact furtherEntries_within hs (.ite (fun _ => pair_within hrules hs) fun _ => hs.fault) hrules.pairs

private theorem item_within (hrules : rules.Within cs) (hs : s.Within cs) :
    Keeps cs (Reads cs) (blockItems.item rules i s) := by
  obtain ⟨hdash, ht⟩ := hs.settle.token .mark 1
  refine (hrules.value Properties.none_within ht).bind ?_
  rintro ⟨value, u⟩ ⟨hvalue, hu⟩
  exact ⟨(hdash.append hvalue).node, hu⟩

private theorem blockItems_within (hrules : rules.Within cs) (hs : s.Within cs) :
    Keeps cs (Reads cs) (blockItems rules i s) := by
  refine .ite (fun _ => ⟨hs.comments, hs.settle⟩) fun _ => ?_
  exact furtherEntries_within hs (.ite (fun _ => item_within hrules hs) fun _ => hs.fault) hrules.items

private theorem sequence_within (hrules : rules.Within cs) (hs : s.Within cs) :
    Keeps cs (ReadsTree cs) (sequence rules i s) := by
  refine Keeps.final ((item_within hrules hs).bind ?_)
  rintro ⟨first, t⟩ ⟨hfirst, ht⟩
  refine (hrules.items ht).bind ?_
  rintro ⟨rest, u⟩ ⟨hrest, hu⟩
  exact ⟨(hfirst.append hrest).node, hu⟩

private theorem mapping_within (hrules : rules.Within cs) {first : Step}
    (hfirst : Keeps cs (Reads cs) first) :
    Keeps cs (ReadsTree cs) (mapping rules i first) := by
  refine Keeps.final (hfirst.bind ?_)
  rintro ⟨first, t⟩ ⟨hfirst, ht⟩
  refine (hrules.pairs ht).bind ?_
  rintro ⟨rest, u⟩ ⟨hrest, hu⟩
  exact ⟨(hfirst.append hrest).node, hu⟩

/-- The node that a rule reads, behind the properties and comments before it. -/
private theorem Properties.Within.wrapped (hp : p.Within cs) {k : Kind} {comments : List Tree}
    (hcomments : AllWithin cs comments) {x : Except Fault (Tree × Layout)} (h : Keeps cs (ReadsTree cs) x) :
    Keeps cs (Reads cs) (do
      let (t, u) ← x
      return (p.wrap k comments t, u)) := by
  refine h.bind ?_
  rintro ⟨t, u⟩ ⟨ht, hu⟩
  exact ⟨hp.wrap hcomments ht, hu⟩

private theorem nodeAfter_within (hrules : rules.Within cs) {compact level : Bool}
    (hp : p.Within cs)
    (hq : q.Within cs) (hs : s.Within cs) (ht : t.Within cs) :
    Keeps cs (Reads cs) (nodeAfter rules i compact level p q s t) := by
  have hbehind : Properties.Within cs { q with before := s.comments } := ⟨hs.comments, hq.2⟩
  have hjoin {r : Properties} (h : p.join? { q with before := s.comments } = some r) : r.Within cs :=
    hp.join? hbehind h
  refine .ite (fun _ => ?_) fun _ => .ite (fun _ => ?_) fun _ => .ite (fun _ => ?_) fun _ => ?_
  · split
    · exact hrules.value (hjoin ‹_›) ht
    · exact ht.fault
  · exact .ite (fun _ => hp.wrapped hs.comments (mapping_within hrules (keyValue_within hrules hq.bare ht)))
      fun _ => ht.fault
  · refine (blockScalar_within ht).bind ?_
    rintro ⟨b, u⟩ ⟨hb, hu⟩
    dsimp only
    split
    · exact ⟨(hjoin ‹_›).wrap allWithin_nil hb, hu⟩
    · exact ht.fault
  · have hcontent : Keeps cs (ReadsTree cs) (flowContent rules false i t) := flowContent_within hrules ht
    split
    · rename_i f herror
      rw [herror] at hcontent
      -- What was to be the node is passed over, and the properties wait for the node behind it.
      refine (ht.skip hcontent _).bind ?_
      rintro ⟨skipped, u⟩ ⟨hskipped, hu⟩
      dsimp only
      split
      · refine (hrules.value (hjoin ‹_›) hu).bind ?_
        rintro ⟨rest, v⟩ ⟨hrest, hv⟩
        exact ⟨hskipped.append hrest, hv⟩
      · exact hcontent
    · rename_i content u hok
      rw [hok] at hcontent
      refine .ite (fun _ => ht.fault) fun _ => .ite (fun _ => ?_) fun _ => ?_
      · exact hp.wrapped hs.comments
          (mapping_within hrules (keyValue_within hrules (hq.wrap allWithin_nil hcontent.1) hcontent.2))
      · split
        · exact ⟨(hjoin ‹_›).wrap allWithin_nil hcontent.1, hcontent.2⟩
        · exact ht.fault

private theorem afterProperties_within (hrules : rules.Within cs) {compact level : Bool}
    (hp : p.Within cs)
    (hs : s.Within cs) : Keeps cs (Reads cs) (afterProperties rules i compact level p s) := by
  refine (rowProperties_within hs).bind ?_
  rintro ⟨q, t⟩ ⟨hq, ht⟩
  exact nodeAfter_within hrules hp hq hs ht

private theorem nodeHere_within (hrules : rules.Within cs) {compact level : Bool} (hp : p.Within cs)
    (hs : s.Within cs) : Keeps cs (Reads cs) (nodeHere rules i compact level p s) := by
  refine .ite (fun _ => ?_) fun _ => .ite (fun _ => ?_) fun _ => .ite (fun _ => ?_) fun _ =>
    .ite (fun _ => ?_) fun _ => ?_
  · exact .ite (fun _ => hp.wrapped hs.comments (sequence_within hrules hs)) fun _ => hs.fault
  · exact .ite (fun _ => hp.wrapped hs.comments (mapping_within hrules (pair_within hrules hs)))
      fun _ => hs.fault
  · exact hp.wrapped hs.comments (blockScalar_within hs)
  · exact afterProperties_within hrules hp hs
  · refine (flowContent_within hrules hs).bind ?_
    rintro ⟨content, u⟩ ⟨hcontent, hu⟩
    refine .ite (fun _ => ?_) fun _ => .ite (fun _ => hs.fault) fun _ => ⟨hp.wrap hs.comments hcontent, hu⟩
    have hkey : AllWithin cs [.node .flowNode [content]] := hcontent.node
    exact hp.wrapped hs.comments (mapping_within hrules (keyValue_within hrules hkey hu))

private theorem blockValue_within (hrules : rules.Within cs) {compact level : Bool}
    (hp : p.Within cs)
    (hs : s.Within cs) : Keeps cs (Reads cs) (blockValue rules i compact level p s) := by
  refine .ite (fun _ => ⟨hp.bare, hs⟩) fun _ => .ite (fun _ => ?_) fun _ => .ite (fun _ => ?_) fun _ =>
    ⟨hp.bare, hs⟩
  · have hnode : Keeps cs (Reads cs) (nodeHere rules i compact level p s) := nodeHere_within hrules hp hs
    split
    · rename_i f herror
      rw [herror] at hnode
      refine .ite (fun _ => ⟨hp.bare, hs⟩) fun _ => (hs.skip hnode _).bind ?_
      rintro ⟨skipped, t⟩ ⟨hskipped, ht⟩
      refine (hrules.value hp ht).bind ?_
      rintro ⟨rest, u⟩ ⟨hrest, hu⟩
      exact ⟨hskipped.append hrest, hu⟩
    · exact hnode
  · exact hp.wrapped hs.comments (sequence_within hrules hs)

/-! ### Documents -/

private theorem finish_within (hrules : rules.Within cs) (hts : AllWithin cs ts)
    (hs : s.Within cs) :
    Keeps cs (Reads cs) (finish rules ts s) := by
  refine .ite (fun _ => ?_) fun _ => .ite (fun _ => ?_) fun _ => hs.fault
  · obtain ⟨hdots, ht⟩ := hs.token .mark 3
    refine (hrules.documents ht).bind ?_
    rintro ⟨rest, u⟩ ⟨hrest, hu⟩
    exact ⟨(hts.append hdots).node.append hrest, hu⟩
  · refine (hrules.documents hs).bind ?_
    rintro ⟨rest, u⟩ ⟨hrest, hu⟩
    exact ⟨hts.node.append hrest, hu⟩

private theorem documentFrom_within (hrules : rules.Within cs) (hts : AllWithin cs ts)
    (hs : s.Within cs) :
    Keeps cs (Reads cs) (documentFrom rules ts s) := by
  refine (hrules.value Properties.none_within hs).bind ?_
  rintro ⟨body, t⟩ ⟨hbody, ht⟩
  have hfinish {x : Step} (h : Keeps cs (Reads cs) x) : Keeps cs (Reads cs) (do
      let (behind, u) ← x
      finish rules (ts ++ body ++ behind) u) := by
    refine h.bind ?_
    rintro ⟨behind, u⟩ ⟨hbehind, hu⟩
    exact finish_within hrules ((hts.append hbody).append hbehind) hu
  exact .ite (fun _ => hfinish ⟨allWithin_nil, ht⟩) fun _ => hfinish (ht.orSkip _ ht.fault)

private theorem parameters_within (name : List Char) (hs : s.Within cs) :
    Keeps cs (Reads cs) (directiveLines.parameters name s) := by
  refine .ite (fun _ => ?_) fun _ => .ite (fun _ => ?_) fun _ => ?_
  · exact .ite (fun _ => hs.fault) fun _ => hs.token? ..
  · refine .ite (fun _ => hs.fault) fun _ => (hs.token? ..).bind ?_
    rintro ⟨handle, t⟩ ⟨hhandle, ht⟩
    refine .ite (fun _ => ht.fault) fun _ => (ht.token? ..).bind ?_
    rintro ⟨stem, u⟩ ⟨hstem, hu⟩
    exact ⟨hhandle.append hstem, hu⟩
  · exact .ite (fun _ => ⟨allWithin_nil, hs⟩) fun _ => hs.token ..

private theorem directiveLines_within (hrules : rules.Within cs) (hs : s.Within cs) :
    Keeps cs (Reads cs) (directiveLines rules s) := by
  refine .ite (fun _ => hs.token ..) fun _ => .ite (fun _ => ?_) fun _ => hs.fault
  refine (hs.settle.token? ..).bind ?_
  rintro ⟨parts, t⟩ ⟨hparts, ht⟩
  refine (parameters_within _ ht).bind ?_
  rintro ⟨more, u⟩ ⟨hmore, hu⟩
  refine .ite (fun _ => (hrules.directives hu).bind ?_) fun _ => hu.fault
  rintro ⟨rest, v⟩ ⟨hrest, hv⟩
  exact ⟨hs.comments.append ((hparts.append hmore).node.append hrest), hv⟩

private theorem streamDocuments_within (hrules : rules.Within cs) {bare : Bool} (hs : s.Within cs) :
    Keeps cs (Reads cs) (streamDocuments rules bare s) := by
  have hbehind {x : Step} (h : Keeps cs (Reads cs) x) : Keeps cs (Reads cs) (do
      let (ts, t) ← x
      return (s.comments ++ ts, t)) := by
    refine h.bind ?_
    rintro ⟨ts, t⟩ ⟨hts, ht⟩
    exact ⟨hs.comments.append hts, ht⟩
  refine .ite (fun _ => ⟨hs.comments, hs.settle⟩) fun _ => .ite (fun _ => ?_) fun _ =>
    .ite (fun _ => hbehind hs.fault) fun _ => .ite (fun _ => ?_) fun _ =>
      .ite (fun _ => hbehind (finish_within hrules allWithin_nil hs.settle)) fun _ =>
        .ite (fun _ => hbehind (documentFrom_within hrules allWithin_nil hs.settle)) fun _ => hbehind hs.fault
  · obtain ⟨hmark, ht⟩ := hs.settle.token .mark 3
    exact hbehind (documentFrom_within hrules hmark ht)
  · refine (hrules.directives hs.settle).bind ?_
    rintro ⟨prologue, t⟩ ⟨hprologue, ht⟩
    exact hbehind (documentFrom_within hrules hprologue ht)

private theorem ofDepth_within (cs : List Char) (n : Nat) : (Rules.ofDepth n).Within cs := by
  induction n with
  | zero =>
    exact ⟨fun hs => hs.fault, fun _ hs => hs.fault, fun hs => hs.fault, fun hs => hs.fault,
      fun hs => hs.fault, fun hs => hs.fault⟩
  | succ n ih =>
    exact ⟨flowEntries_within ih, blockValue_within ih, blockItems_within ih, blockPairs_within ih,
      streamDocuments_within ih, directiveLines_within ih⟩

/-- Every leaf of the tree of a text is a stretch of the text. -/
theorem Tree.ofText_within (cs : List Char) : AllWithin cs [Tree.ofText cs] := by
  have hstream : Keeps cs (Reads cs) (stream cs) := (ofDepth_within cs _).documents (Layout.ofText_within cs)
  unfold Tree.ofText
  split
  · rename_i ts t hok
    rw [hok] at hstream
    exact hstream.1.node
  · rename_i f herror
    rw [herror] at hstream
    -- One error stands for the text: from its first token on, or from its start if no token is in order.
    have hfirst := Layout.ofText_within cs
    have hstart : IsBoundary cs (if (Layout.ofText cs).cursor.offset < f.stop then
        (Layout.ofText cs).cursor.offset else (Layout.ofText cs).stop) := by
      split
      · exact hfirst.inText.boundary
      · exact hfirst.stop
    refine AllWithin.node (.leaf (Nat.le_max_left _ _) hstart ?_)
    rcases Nat.le_total f.stop _ with hle | hle
    · exact (Nat.max_eq_left hle).symm ▸ hstart
    · exact (Nat.max_eq_right hle).symm ▸ hstream.stop

end YamlOutline.Syntax
