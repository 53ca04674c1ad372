import YamlOutline.Proofs.Syntax.Passing
import YamlOutline.Syntax.Stream

/-! What a rule of the grammar adds to the tree. Whatever it reads without a fault stands in the
source behind all that was read before, and every node that it makes has content. -/

namespace YamlOutline.Syntax
open Text (IsBoundary size)
variable {cs : List Char} {s t u : Layout} {before ts us : List Tree}

/-! ### Steps that succeed -/

theorem bind_eq_ok {ε α β : Type} {x : Except ε α} {f : α → Except ε β} {b : β} :
    (x >>= f) = .ok b ↔ ∃ a, x = .ok a ∧ f a = .ok b := by
  cases x <;> simp [bind, Except.bind]

theorem pure_eq_ok {ε α : Type} {a b : α} : (pure a : Except ε α) = .ok b ↔ a = b := by
  simp [pure, Except.pure]

theorem mapError_eq_ok {ε ε' α : Type} {f : ε → ε'} {x : Except ε α} {a : α} :
    x.mapError f = .ok a ↔ x = .ok a := by
  cases x <;> simp [Except.mapError]

@[simp] theorem fault_ne_ok {α : Type} (s : Layout) (a : α) : s.fault ≠ .ok a := nofun

/-- Passing over what is at fault leaves an error in the tree. -/
theorem Layout.skip_hasFault {i : Indent} {f : Fault} {welcome : Layout → Bool}
    (h : s.skip i f welcome = .ok (ts, t)) : Tree.hasFaultList ts = true := by
  unfold skip at h
  split at h
  · simp only at h
    split at h
    · cases h
      simp [Tree.isFault, Tree.kind]
    · cases h
  · cases h

theorem Layout.orSkip_eq_ok {i : Indent} {welcome : Layout → Bool} {step : Step}
    (h : s.orSkip i welcome step = .ok (ts, t)) (hf : Tree.hasFaultList ts = false) :
    step = .ok (ts, t) := by
  unfold orSkip at h
  split at h
  · rw [skip_hasFault h] at hf
    cases hf
  · exact h

/-! ### Nodes with content -/

/-- A token that is content stands among the leaves. -/
def HasContent (ts : List Tree) : Prop :=
  ∃ l ∈ Tree.leavesList ts, Node.isToken l.1 l.2 = true

theorem HasContent.ne_nil (h : HasContent ts) : ts ≠ [] := by
  rintro rfl
  obtain ⟨l, hl, -⟩ := h
  simp at hl

theorem hasContent_append_left (h : HasContent ts) : HasContent (ts ++ us) := by
  obtain ⟨l, hl, ht⟩ := h
  exact ⟨l, by simp [hl], ht⟩

theorem hasContent_append_right (h : HasContent us) : HasContent (ts ++ us) := by
  obtain ⟨l, hl, ht⟩ := h
  exact ⟨l, by simp [hl], ht⟩

theorem hasContent_node {k : Kind} (h : HasContent ts) : HasContent [.node k ts] := by
  obtain ⟨l, hl, ht⟩ := h
  exact ⟨l, by simp [hl], ht⟩

/-- The next token stands among the leaves. -/
def Begins (s : Layout) (ts : List Tree) : Prop :=
  ∃ l ∈ Tree.leavesList ts, Node.isToken l.1 l.2 = true ∧ l.2.start = s.cursor.offset

theorem Begins.hasContent (h : Begins s ts) : HasContent ts := by
  obtain ⟨l, hl, ht, -⟩ := h
  exact ⟨l, hl, ht⟩

theorem Begins.mono (h : Begins s ts) (hsub : Tree.leavesList ts ⊆ Tree.leavesList us) : Begins s us := by
  obtain ⟨l, hl, ht⟩ := h
  exact ⟨l, hsub hl, ht⟩

theorem Begins.append (h : Begins s ts) : Begins s (ts ++ us) :=
  h.mono (by simp)

theorem Begins.node {k : Kind} (h : Begins s ts) : Begins s [.node k ts] :=
  h.mono (by simp)

/-! ### Where nodes come from -/

/-- The tree stands between two states and begins where the first one is. -/
structure Stands (cs : List Char) (s : Layout) (t : Tree) (u : Layout) : Prop where
  sound : s.Sound cs
  begins : Begins s [t]
  laid : Ordered cs s.cursor.offset u.cursor.offset t.leaves

/-- The key of a pair without indicator, read from `s` on, with its colon next. -/
def Keyed (rules : Rules) (s : Layout) (key : List Tree) (u : Layout) : Prop :=
  ∃ i q t, rowProperties s = .ok (q, t) ∧ u.atMark ':' = true ∧ u.fresh = false ∧
    ((q.trees ≠ [] ∧ key = q.bare ∧ u = t) ∨
      ∃ content, flowContent rules false i t = .ok (content, u) ∧ isKeyColon u s.cursor.row = true ∧
        (q.trees ≠ [] → t.fresh = false ∧ content.isAlias = false) ∧ key = q.wrap .flowNode [] content)

/-- The pair that begins at `s`. -/
def PairRead (rules : Rules) (j : Indent) (s : Layout) (t : Tree) (u : Layout) : Prop :=
  (((s.atMark '?' || s.atMark ':') = true ∧ pair rules j s = .ok ([t], u)) ∨
    ∃ key v, Keyed rules s key v ∧ keyValue rules j key v = .ok ([t], u))

/-- A node that is laid out in the text by a rule of its own, as the rule read it. The entries of a
collection without brackets stand in the column in which it begins. -/
inductive Origin (cs : List Char) (t : Tree) : Prop where
  | brackets (n : Nat) (isMapping : Bool) (i : Indent) (s u : Layout) (stands : Stands cs s t u)
    (bracket : s.at? (if isMapping then '\x7b' else '[') = true)
    (read : collection (Rules.ofDepth n) isMapping i s = .ok (t, u))
  | sequence (n : Nat) (j : Indent) (s u : Layout) (stands : Stands cs s t u)
    (opens : j.floor = s.column + 1) (dash : s.atMark '-' = true)
    (read : sequence (Rules.ofDepth n) j s = .ok (t, u))
  | mapping (n : Nat) (j : Indent) (s v u : Layout) (stands : Stands cs s t u)
    (opens : j.floor = s.column + 1) (noMarker : s.atDocument = false) (first : Tree) (rest : List Tree)
    (read : PairRead (Rules.ofDepth n) j s first v)
    (more : (Rules.ofDepth n).pairs j v = .ok (rest, u)) (whole : t = .node .blockMapping (first :: rest))
  | pair (n : Nat) (j : Indent) (s u : Layout) (stands : Stands cs s t u)
    (opens : j.floor = s.column + 1) (noMarker : s.atDocument = false)
    (read : PairRead (Rules.ofDepth n) j s t u)
  | flowPair (n : Nat) (isMapping : Bool) (i : Indent) (s u : Layout) (stands : Stands cs s t u)
    (settled : s.comments = []) (parts : List Tree) (whole : t = .node .flowPair parts)
    (read : flowItem (Rules.ofDepth n) isMapping i s = .ok ([t], u))

/-- The kinds of nodes that are laid out by a rule of their own. -/
def isLaidOut : Kind → Bool
  | .flowMapping | .flowSequence | .flowPair => true
  | .blockMapping | .blockSequence | .blockMappingPair => true
  | _ => false

/-- What holds of every part of a tree without fault. A leaf that can be the content of a node is
not empty; a node has content, and what the rules lay out they have read. -/
def Genuine (cs : List Char) : Tree → Prop
  | .leaf k s => Node.isAside k = true ∨ s.start < s.stop
  | .node k ts => HasContent ts ∧ (isLaidOut k = true → Origin cs (.node k ts))

def AllGenuine (cs : List Char) (ts : List Tree) : Prop :=
  ∀ t ∈ Tree.preorderList ts, Genuine cs t

@[simp] theorem allGenuine_nil : AllGenuine cs [] := by
  simp [AllGenuine, Tree.preorderList]

@[simp] theorem allGenuine_leaf_cons {k : Kind} {span : Span} :
    AllGenuine cs (.leaf k span :: ts) ↔ Genuine cs (.leaf k span) ∧ AllGenuine cs ts := by
  simp [AllGenuine, Tree.preorderList, Tree.preorder]

@[simp] theorem allGenuine_node_cons {k : Kind} :
    AllGenuine cs (.node k us :: ts) ↔
      Genuine cs (.node k us) ∧ AllGenuine cs us ∧ AllGenuine cs ts := by
  simp [AllGenuine, Tree.preorderList, Tree.preorder, or_imp, forall_and]

@[simp] theorem allGenuine_append :
    AllGenuine cs (ts ++ us) ↔ AllGenuine cs ts ∧ AllGenuine cs us := by
  induction ts with
  | nil => simp
  | cons t ts ih => cases t <;> simp [ih, and_assoc]

theorem AllGenuine.of_mem {u : Tree} (h : AllGenuine cs ts) (hu : u ∈ Tree.preorderList ts) :
    AllGenuine cs [u] := by
  have hp := (Tree.of_mem_preorderList ts hu).2
  intro t ht
  exact h t (hp (by simpa [Tree.preorderList] using ht))

theorem Layout.Sound.allGenuine (h : s.Sound cs) : AllGenuine cs s.comments := by
  obtain ⟨_, hc⟩ := h
  generalize s.comments = ts at hc
  induction ts with
  | nil => simp
  | cons t ts ih =>
    obtain ⟨⟨span, rfl⟩, hts⟩ := List.forall_mem_cons.mp hc
    simp [Genuine, Node.isAside, ih hts]

/-! ### What is added -/

/-- Reading from `s` to `t` makes `ts` of the trees `before`, the comments before `s` and what is read:
their leaves stand one behind the other if those before do, and there is a leaf for everything that is
read and no white space. -/
structure Adds (cs : List Char) (s : Layout) (before ts : List Tree) (t : Layout) : Prop where
  sound : t.Sound cs
  genuine : AllGenuine cs ts
  onward : s.cursor.offset ≤ t.cursor.offset
  descends : s.Descends t
  laid : ∀ lo, Ordered cs lo s.cursor.offset (Tree.leavesList (before ++ s.comments)) →
    Ordered cs lo t.cursor.offset (Tree.leavesList (ts ++ t.comments))
  kept : Tree.leavesList before ⊆ Tree.leavesList ts
  keptComments : Tree.leavesList s.comments ⊆ Tree.leavesList (ts ++ t.comments)
  covers : Covers cs s.cursor.offset t.cursor.offset (Tree.leavesList (ts ++ t.comments))

theorem Adds.refl (hs : s.Sound cs) (hb : AllGenuine cs before) : Adds cs s before before s :=
  ⟨hs, hb, Nat.le_refl _, .refl s, fun _ h => h, List.Subset.refl _, by simp, .of_le (Nat.le_refl _)⟩

/-- The comments find their place in the tree. -/
theorem Adds.gather (hs : s.Sound cs) (hb : AllGenuine cs before) :
    Adds cs s before (before ++ s.comments) s.settle :=
  ⟨hs.settle, allGenuine_append.mpr ⟨hb, hs.allGenuine⟩, Nat.le_refl _, .settle s, fun _ h => by
    simpa [Layout.settle] using h, by simp, by simp, .of_le (Nat.le_refl _)⟩

theorem Adds.trans {vs : List Tree} (h : Adds cs s before ts t) (h' : Adds cs t ts vs u) :
    Adds cs s before vs u := by
  have hkept : Tree.leavesList (ts ++ t.comments) ⊆ Tree.leavesList (vs ++ u.comments) := by
    rw [Tree.leavesList_append]
    refine List.append_subset.mpr ⟨List.Subset.trans h'.kept ?_, h'.keptComments⟩
    simp
  exact ⟨h'.sound, h'.genuine, h.onward.trans h'.onward, h.descends.trans h'.descends,
    fun lo hlo => h'.laid lo (h.laid lo hlo), List.Subset.trans h.kept h'.kept,
    List.Subset.trans h.keptComments hkept, (h.covers.mono hkept).trans h'.covers⟩

theorem Adds.behind (h : Adds cs t [] us u) (hts : AllGenuine cs ts) : Adds cs t ts (ts ++ us) u := by
  have hsub : Tree.leavesList (us ++ u.comments) ⊆ Tree.leavesList (ts ++ us ++ u.comments) := by
    simp
  refine ⟨h.sound, allGenuine_append.mpr ⟨hts, h.genuine⟩, h.onward, h.descends, fun lo hlo => ?_,
    by simp, List.Subset.trans h.keptComments hsub, h.covers.mono hsub⟩
  rw [Tree.leavesList_append] at hlo
  obtain ⟨mid, hmid, hrest⟩ := ordered_append_iff.mp hlo
  rw [List.append_assoc, Tree.leavesList_append]
  exact hmid.append (h.laid mid hrest)

/-- One rule after the other. -/
theorem Adds.append (h : Adds cs s before ts t) (h' : Adds cs t [] us u) :
    Adds cs s before (ts ++ us) u :=
  h.trans (h'.behind h.genuine)

/-- The same leaves in other nodes. -/
theorem Adds.regroup (h : Adds cs s before ts t) (hl : Tree.leavesList us = Tree.leavesList ts)
    (hg : AllGenuine cs us) : Adds cs s before us t := by
  have hleaves : Tree.leavesList (us ++ t.comments) = Tree.leavesList (ts ++ t.comments) := by
    rw [Tree.leavesList_append, hl, ← Tree.leavesList_append]
  exact ⟨h.sound, hg, h.onward, h.descends, fun lo hlo => hleaves ▸ h.laid lo hlo, hl ▸ h.kept,
    hleaves ▸ h.keptComments, hleaves ▸ h.covers⟩

/-- A rule that leaves the comments before it aside, behind them. -/
theorem Adds.afterComments (h : Adds cs s.settle [] ts t) (hs : s.Sound cs)
    (hb : AllGenuine cs before) : Adds cs s before (before ++ s.comments ++ ts) t :=
  (Adds.gather hs hb).append h

/-- A single node around what was added. -/
theorem Adds.node {k : Kind} (h : Adds cs s before ts t) (hc : HasContent ts)
    (hk : isLaidOut k = true → Origin cs (.node k ts)) : Adds cs s before [.node k ts] t := by
  refine h.regroup (by simp) ?_
  simpa [Genuine, hc, h.genuine] using hk

/-- What is added without the comments before it stands between the states. -/
theorem Adds.stands (h : Adds cs s.settle [] ts u) (hs : s.Sound cs) (hc : Begins s ts) {t : Tree}
    (ht : t.leaves = Tree.leavesList ts) : Stands cs s t u := by
  have hlaid := h.laid s.cursor.offset (Nat.le_refl _)
  rw [Tree.leavesList_append, ordered_append_iff] at hlaid
  obtain ⟨mid, hts, hcomments⟩ := hlaid
  exact ⟨hs, hc.mono (by simp [ht]), ht ▸ hts.mono (Nat.le_refl _) hcomments.le⟩

/-! ### Tokens -/

namespace Layout

theorem rest_ne_nil_of_at? {c : Char} (h : s.at? c = true) : s.rest ≠ [] := by
  intro hn
  simp [at?, hn] at h

theorem rest_ne_nil_of_atMark {c : Char} (h : s.atMark c = true) : s.rest ≠ [] := by
  intro hn
  simp [atMark, hn] at h

/-- The next `n` characters as a leaf. -/
theorem leaf_adds {k : Kind} {n : Nat} (hs : s.Sound cs)
    (hk : Genuine cs (.leaf k (s.cursor.spanOf n))) (hcomment : k ≠ .comment) :
    Adds cs s.settle [] [.leaf k (s.cursor.spanOf n)] (after (s.cursor.drop n)) := by
  have hn := hs.inText.drop n
  have hle := s.cursor.offset_le_drop n
  have hcovers : Covers cs s.cursor.offset (s.cursor.drop n).offset [(k, s.cursor.spanOf n)] :=
    Covers.content (s := s.cursor.spanOf n) hcomment
  refine ⟨after_sound hn, by simpa using hk, hle.trans (after_laid hn).le, .after s.settle n,
    fun lo hlo => ?_, by simp, by simp [settle], by simpa [settle] using hcovers.append (after_covers hn)⟩
  have hlo : lo ≤ s.cursor.offset := hlo.le
  simp only [List.singleton_append, Tree.leavesList_cons, Tree.leaves_leaf]
  exact ⟨hlo, hle, hs.inText.boundary, hn.boundary, after_laid hn⟩

theorem isToken_spanOf {k : Kind} {n : Nat} (hr : s.rest ≠ []) (hn : n ≠ 0)
    (hk : k ≠ .comment ∧ k ≠ .blockText) : Node.isToken k (s.cursor.spanOf n) = true := by
  have hlt := Cursor.offset_lt_drop hr hn
  simp [Node.isToken, Cursor.spanOf, hlt, hk.1, hk.2]

theorem genuine_leaf {k : Kind} {n : Nat} (hr : s.rest ≠ []) (hn : n ≠ 0) :
    Genuine cs (.leaf k (s.cursor.spanOf n)) :=
  .inr (Cursor.offset_lt_drop hr hn)

theorem begins_leaf {k : Kind} {n : Nat} (hr : s.rest ≠ []) (hn : n ≠ 0)
    (hk : k ≠ .comment ∧ k ≠ .blockText) : Begins s [.leaf k (s.cursor.spanOf n)] :=
  ⟨(k, s.cursor.spanOf n), by simp, isToken_spanOf hr hn hk, rfl⟩

/-- A token with the comments before it. -/
theorem token_adds {k : Kind} {n : Nat} (hs : s.Sound cs)
    (hk : Genuine cs (.leaf k (s.cursor.spanOf n))) (hcomment : k ≠ .comment) :
    Adds cs s [] (s.token k n).1 (s.token k n).2 := by
  simpa [token] using (leaf_adds hs hk hcomment).afterComments hs allGenuine_nil

theorem mark_adds (hs : s.Sound cs) (n : Nat) : Adds cs s [] (s.token .mark n).1 (s.token .mark n).2 :=
  token_adds hs (.inl rfl) (by simp)

theorem colon_adds (hs : s.Sound cs) :
    Adds cs s [] (s.token .valueMark 1).1 (s.token .valueMark 1).2 :=
  token_adds hs (.inl rfl) (by simp)

theorem token_begins {k : Kind} {n : Nat} (hr : s.rest ≠ []) (hn : n ≠ 0)
    (hk : k ≠ .comment ∧ k ≠ .blockText) : Begins s (s.token k n).1 :=
  (begins_leaf hr hn hk).mono (by simp [token])

end Layout

end YamlOutline.Syntax
