import YamlOutline.Proofs.Syntax.PlainSteps
import YamlOutline.Proofs.Syntax.QuotedRuns
import YamlOutline.Proofs.Syntax.Reading

/-! Anchors and tags: how they are read and what they add to the node that carries them. No token is
empty. -/

namespace YamlOutline.Syntax
variable {cs : List Char} {s t u : Layout} {before ts : List Tree} {p q r : Properties}

/-! ### No token is empty -/

theorem nameLength?_ne_zero {rest : List Char} {n : Nat} (h : nameLength? rest = some n) : n ≠ 0 := by
  rcases rest with _ | ⟨c, rest⟩
  · cases h
  · simp only [nameLength?] at h
    split at h <;> cases h
    simp

theorem tagLength?_ne_zero {rest : List Char} {n : Nat} (h : tagLength? rest = some n) : n ≠ 0 := by
  rcases rest with _ | ⟨c, rest⟩
  · cases h
  simp only [tagLength?] at h
  split at h
  · cases h
    simp
  split at h
  · simp only [Option.bind_eq_bind, Option.bind_eq_some_iff] at h
    obtain ⟨m, -, hm⟩ := h
    split at hm <;> cases hm
    simp
  · obtain ⟨m, -, rfl⟩ := Option.map_eq_some_iff.mp h
    simp

theorem Plain.isHead_of_atGap (inFlow : Bool) (h : atGap cs = true) : isHead inFlow cs = false := by
  cases cs with
  | nil => rfl
  | cons c cs => simp [isHead, isPlain, isVisible_eq_false_of_gap h]

theorem Quoted.length_ne_zero {style : Style} {floor n : Nat} {rest : List Char}
    (h : length style floor rest = .ok n) : n ≠ 0 := by
  obtain ⟨m, rfl, -⟩ := length_eq_ok.mp h
  omega

/-! ### Properties -/

/-- Properties that were read. -/
structure Properties.Sound (cs : List Char) (p : Properties) : Prop where
  genuine : AllGenuine cs (p.before ++ p.trees)
  content : p.trees = [] ∨ HasContent p.trees

namespace Properties

theorem none_sound : Sound cs {} :=
  ⟨by simp, .inl rfl⟩

/-- A fault in the content is one in the node around it. -/
theorem hasFault_of_wrap {k : Kind} {comments : List Tree} {content : Tree}
    (h : Tree.hasFaultList (p.wrap k comments content) = false) : content.hasFault = false := by
  unfold wrap at h
  split at h <;> simp_all

private theorem Sound.hasContent (h : p.Sound cs) (hp : p.trees.isEmpty = false) :
    HasContent p.trees :=
  h.content.resolve_left (by simpa using hp)

end Properties

/-- A property is one token. -/
theorem Layout.property_eq_ok (h : s.property = .ok (ts, t)) :
    ∃ k n, (k = .anchor ∨ k = .tag) ∧ n ≠ 0 ∧ (ts, t) = s.token k n := by
  unfold property token? at h
  split at h <;> split at h <;> cases h
  · exact ⟨_, _, .inl rfl, nameLength?_ne_zero ‹_›, rfl⟩
  · exact ⟨_, _, .inr rfl, tagLength?_ne_zero ‹_›, rfl⟩

theorem Layout.rest_ne_nil_of_atProperty (h : s.atProperty = true) : s.rest ≠ [] := by
  rcases (Bool.or_eq_true _ _).mp h with h | h
  · exact rest_ne_nil_of_at? h
  · exact rest_ne_nil_of_at? h

namespace Properties

theorem leavesList_wrap {k : Kind} {comments : List Tree} {content : Tree} :
    Tree.leavesList (p.wrap k comments content) =
      Tree.leavesList (p.before ++ p.trees ++ comments ++ [content]) := by
  unfold wrap
  split
  · rename_i hnil
    rw [List.isEmpty_iff] at hnil
    simp [hnil]
  · simp

theorem leavesList_bare : Tree.leavesList p.bare = Tree.leavesList (p.before ++ p.trees) := by
  unfold bare
  split
  · rename_i hnil
    rw [List.isEmpty_iff] at hnil
    simp [hnil]
  · simp

end Properties

theorem Begins.wrap {k : Kind} {comments : List Tree} {content : Tree} (h : Begins s [content]) :
    Begins s (p.wrap k comments content) :=
  h.mono (by
    rw [Properties.leavesList_wrap, Tree.leavesList_append]
    exact List.subset_append_right _ _)

/-- One more property is read where no other one of its kind is there. -/
theorem Properties.read_eq_ok : p.read s = .ok (q, t) ↔
    (if s.at? '&' then p.anchor else p.tag) = false ∧ ∃ ts, s.property = .ok (ts, t) ∧
      q = {
        before := if p.trees.isEmpty then p.before ++ s.comments else p.before
        trees := if p.trees.isEmpty then ts.drop s.comments.length else p.trees ++ ts
        anchor := p.anchor || s.at? '&'
        tag := p.tag || !s.at? '&' } := by
  by_cases htwice : (if s.at? '&' then p.anchor else p.tag) = true
  · rw [read, if_pos htwice, htwice]
    simp
  rw [read, if_neg htwice]
  simp only [bind_eq_ok, pure_eq_ok, Prod.exists, Prod.mk.injEq]
  constructor
  · rintro ⟨ts, _, hprop, rfl, rfl⟩
    exact ⟨by simpa using htwice, ts, hprop, rfl⟩
  · rintro ⟨-, ts, hprop, rfl⟩
    exact ⟨ts, t, hprop, rfl, rfl⟩

/-- What reading one more property adds. -/
structure Properties.Grown (cs : List Char) (p : Properties) (s : Layout) (q : Properties)
    (t : Layout) : Prop where
  sound : q.Sound cs
  begins : Begins s q.trees
  adds : Adds cs s (p.before ++ p.trees) (q.before ++ q.trees) t
  before : p.trees ≠ [] ∨ s.comments = [] → q.before = p.before

theorem Properties.read_grown (hs : s.Sound cs) (hp : p.Sound cs) (hat : s.atProperty = true)
    (h : p.read s = .ok (q, t)) : p.Grown cs s q t := by
  obtain ⟨-, ts, hprop, rfl⟩ := read_eq_ok.mp h
  obtain ⟨k, n, hk, hn, htok⟩ := Layout.property_eq_ok hprop
  obtain ⟨rfl, rfl⟩ := Prod.mk.inj htok
  have hr := Layout.rest_ne_nil_of_atProperty hat
  have hkind : k ≠ .comment ∧ k ≠ .blockText := by rcases hk with rfl | rfl <;> simp
  have hleaf : Begins s [.leaf k (s.cursor.spanOf n)] := Layout.begins_leaf hr hn hkind
  have hadds := (Layout.token_adds hs (Layout.genuine_leaf (k := k) hr hn) hkind.1).behind hp.genuine
  rcases hp.content with hnil | hcont
  · simp only [Layout.token, hnil, List.append_nil] at hadds
    simp only [hnil, List.isEmpty_nil, if_true, List.drop_left]
    rw [← List.append_assoc] at hadds
    exact ⟨⟨hadds.genuine, .inr hleaf.hasContent⟩, hleaf, by simpa [hnil] using hadds, by simp [hnil]⟩
  · have hne : p.trees.isEmpty = false := by simpa using hcont.ne_nil
    simp only [hne, Bool.false_eq_true, if_false]
    rw [List.append_assoc] at hadds
    have hgrown : Begins s (p.trees ++ (s.token k n).1) :=
      hleaf.mono (by simp [Layout.token])
    exact ⟨⟨hadds.genuine, .inr hgrown.hasContent⟩, hgrown, hadds, fun _ => rfl⟩

/-- No property is given up for another one. -/
private theorem Properties.leavesList_subset_of_read (h : p.read s = .ok (q, t)) :
    Tree.leavesList p.trees ⊆ Tree.leavesList q.trees := by
  obtain ⟨-, ts, -, rfl⟩ := read_eq_ok.mp h
  by_cases hfirst : p.trees.isEmpty = true
  · simp [List.isEmpty_iff.mp hfirst]
  · simp [hfirst]

theorem Properties.Grown.read (h : p.Grown cs s q t) (hat : t.atProperty = true) (hread : q.read t = .ok (r, u)) :
    p.Grown cs s r u := by
  have h' := read_grown h.adds.sound h.sound hat hread
  exact ⟨h'.sound, h.begins.mono (leavesList_subset_of_read hread), h.adds.trans h'.adds,
    fun hp => (h'.before (.inl h.begins.hasContent.ne_nil)).trans (h.before hp)⟩

theorem Properties.join?_eq_some (h : p.join? q = some r) :
    r.before ++ r.trees = p.before ++ p.trees ++ (q.before ++ q.trees) := by
  unfold Properties.join? at h
  split at h
  · cases h
  split at h <;> cases h
  · rename_i hnil
    rw [List.isEmpty_iff] at hnil
    simp [hnil]
  · simp

theorem Properties.Sound.join? (hp : p.Sound cs) (hq : q.Sound cs) (h : p.join? q = some r) :
    r.Sound cs := by
  refine ⟨?_, ?_⟩
  · rw [join?_eq_some h]
    exact allGenuine_append.mpr ⟨hp.genuine, hq.genuine⟩
  · unfold Properties.join? at h
    split at h
    · cases h
    split at h <;> cases h
    · exact hq.content
    · rename_i hne
      have hcont : HasContent (p.trees ++ (q.before ++ q.trees)) :=
        hasContent_append_left (hp.hasContent (by simpa using hne))
      exact .inr (by simpa using hcont)

/-! ### Decorations -/

/-- An anchor, a tag or a comment. -/
def Tree.IsDecoration (t : Tree) : Prop :=
  t.kind = .anchor ∨ t.kind = .tag ∨ t.kind = .comment

theorem isAside_of_isDecoration {t : Tree} (h : t.IsDecoration) : Node.isAside t.kind = true := by
  rcases h with h | h | h <;> rw [h] <;> rfl

theorem Layout.Sound.decorations (hs : s.Sound cs) : ∀ t ∈ s.comments, t.IsDecoration := by
  intro t ht
  obtain ⟨span, rfl⟩ := hs.comments t ht
  exact .inr (.inr rfl)

/-- Anchors, tags and comments are all that has been read. -/
def Properties.Decorated (p : Properties) : Prop :=
  ∀ t ∈ p.before ++ p.trees, t.IsDecoration

theorem Properties.none_decorated : Decorated {} :=
  List.forall_mem_nil _

theorem Properties.read_decorations {p q : Properties} (hs : s.Sound cs) (h : p.read s = .ok (q, t))
    (hp : p.Decorated) : q.Decorated := by
  obtain ⟨-, ts, hprop, rfl⟩ := read_eq_ok.mp h
  obtain ⟨k, n, hk, -, htoken⟩ := Layout.property_eq_ok hprop
  obtain ⟨rfl, -⟩ := Prod.mk.inj htoken
  have hts : ∀ t ∈ (s.token k n).1, t.IsDecoration := by
    intro t ht
    rcases List.mem_append.mp ht with ht | ht
    · exact hs.decorations t ht
    · obtain rfl := List.mem_singleton.mp ht
      exact hk.imp id .inl
  have hp' {t : Tree} (ht : t ∈ p.before ∨ t ∈ p.trees) : t.IsDecoration := hp t (List.mem_append.mpr ht)
  intro t ht
  rcases List.mem_append.mp ht with ht | ht
  · split at ht
    · rcases List.mem_append.mp ht with ht | ht
      · exact hp' (.inl ht)
      · exact hs.decorations t ht
    · exact hp' (.inl ht)
  · split at ht
    · exact hts t (List.mem_of_mem_drop ht)
    · rcases List.mem_append.mp ht with ht | ht
      · exact hp' (.inr ht)
      · exact hts t ht

namespace Adds

/-- A node that carries the properties before it. -/
theorem wrap {k : Kind} {comments : List Tree} {content : Tree}
    (h : Adds cs s before (p.before ++ p.trees ++ comments ++ [content]) t)
    (hc : HasContent [content]) (hk : isLaidOut k = false) :
    Adds cs s before (p.wrap k comments content) t := by
  obtain ⟨hbefore, hcomments, hcontent⟩ :
      AllGenuine cs (p.before ++ p.trees) ∧ AllGenuine cs comments ∧ AllGenuine cs [content] := by
    simpa [and_assoc] using h.genuine
  refine h.regroup Properties.leavesList_wrap ?_
  unfold Properties.wrap
  split
  · simp [Genuine, hc, hk, hcomments, hcontent, (allGenuine_append.mp hbefore).1]
  · have hinner : HasContent (p.trees ++ comments ++ [content]) := hasContent_append_right hc
    simp [Genuine, by simpa using hinner, hk, hcomments, hcontent, allGenuine_append.mp hbefore]

/-- A node without content stands as its properties. -/
theorem bare (hp : p.Sound cs) (h : Adds cs s before (p.before ++ p.trees) t) :
    Adds cs s before p.bare t ∧ (p.trees.isEmpty = false → HasContent p.bare) := by
  obtain ⟨hbefore, htrees⟩ := allGenuine_append.mp h.genuine
  unfold Properties.bare
  split
  · rename_i hnil
    rw [List.isEmpty_iff] at hnil
    exact ⟨by simpa [hnil] using h, by simp [hnil]⟩
  · rename_i hne
    have hc : HasContent p.trees := hp.hasContent (by simpa using hne)
    exact ⟨h.regroup (by simp) (by simp [Genuine, isLaidOut, hc, hbefore, htrees]),
      fun _ => hasContent_append_right (hasContent_node hc)⟩

end Adds

end YamlOutline.Syntax
