import YamlOutline.Proofs.Node.Ends
import YamlOutline.Proofs.Syntax.Quoting

/-! What a text written between quotes is decoded to: the text without the blanks at its ends. The
quotes are taken off and the guards resolved, and between the two steps the rows of the scalar are
trimmed, also the only row of one that has no line break in it. -/

namespace YamlOutline
open Syntax (Span Tree Kind Layout)
open Syntax.Quoted (Style write written isSpecial isAscii)

variable {style : Style} {s cs : List Char} {c : Char}

/-! ### Between the quotes -/

namespace Node

/-- Folding one row trims it. -/
private theorem fold_of_row (h : '\n' ∉ cs) : fold cs = Text.trim cs := by
  have hpieces : Text.pieces '\n' cs = [cs] := Text.pieces_join (List.forall_mem_nil _) h
  rw [fold, Text.rows, hpieces, Text.endedRows]
  cases cs with
  | nil => rfl
  | cons c r =>
    by_cases hempty : Text.trim (c :: r) = []
    · simp [hempty]
    · simp [hempty]

private theorem isBlank_quote (style : Style) : Text.isBlank style.quote = false := by
  cases style <;> rfl

private theorem unquoted_write (style : Style) (s : List Char) :
    unquoted style.quote (write style s) = s.flatMap (written style) := by
  have htrim : Text.trim (write style s) = write style s := by
    refine Text.trim_eq_self_iff.mpr ⟨fun c hc => ?_, fun c hc => ?_⟩
    · obtain rfl : style.quote = c := by simpa [write] using hc
      exact isBlank_quote style
    · have hlast : (write style s).getLast? = some style.quote := List.getLast?_concat
      obtain rfl : style.quote = c := Option.some.inj (hlast.symm.trans hc)
      exact isBlank_quote style
  rw [unquoted, htrim, write, List.cons_append]
  simp

private theorem isBlank_of_isSpecial (h : isSpecial style c = true) : Text.isBlank c = false := by
  cases style with
  | single =>
    obtain rfl : c = '\'' := by simpa [isSpecial] using h
    rfl
  | double =>
    obtain rfl | rfl : c = '\\' ∨ c = '"' := by simpa [isSpecial] using h
    · rfl
    · rfl

private theorem trim_written (style : Style) (s : List Char) :
    Text.trim (s.flatMap (written style)) = (Text.trim s).flatMap (written style) := by
  have hguard : Text.isBlank style.guard = false := by cases style <;> rfl
  refine Text.trim_flatMap (fun c hc => ?_) (fun c hc => ?_) (fun c hc => ?_) s
  · have hplain : isSpecial style c ≠ true := fun h => by simp [isBlank_of_isSpecial h] at hc
    exact if_neg hplain
  · unfold written
    split
    · exact ⟨style.guard, [c], rfl, hguard⟩
    · exact ⟨c, [], rfl, hc⟩
  · unfold written
    split
    · exact ⟨c, [style.guard], rfl, hc⟩
    · exact ⟨c, [], rfl, hc⟩

private theorem single_written (s : List Char) : single (s.flatMap (written .single)) = s := by
  induction s with
  | nil => rfl
  | cons c s ih =>
    by_cases hc : c = '\''
    · subst hc
      rw [List.flatMap_cons]
      exact congrArg _ ih
    · have hw : written .single c = [c] := if_neg (by simpa [isSpecial] using hc)
      rw [List.flatMap_cons, hw, List.singleton_append, single.eq_2 _ _ fun _ h => absurd h hc, ih]

private theorem unescape_written (s : List Char) : unescape (s.flatMap (written .double)) = s := by
  induction s with
  | nil => rfl
  | cons c s ih =>
    by_cases hc : isSpecial .double c = true
    · have hw : written .double c = ['\\', c] := if_pos hc
      have hescaped : escaped c = c := by
        obtain rfl | rfl : c = '\\' ∨ c = '"' := by simpa [isSpecial] using hc
        · rfl
        · rfl
      rw [List.flatMap_cons, hw, List.cons_append, List.singleton_append, unescape, hescaped, ih]
    · have hw : written .double c = [c] := if_neg hc
      have hne : c ≠ '\\' := by
        rintro rfl
        exact hc rfl
      rw [List.flatMap_cons, hw, List.singleton_append, unescape.eq_2 _ _ fun _ _ h => absurd h hne, ih]

/-- What is decoded are the characters that were written, but none of the blanks at the ends. -/
private theorem scalarValue_write (style : Style) (hs : ∀ c ∈ s, isAscii c = true) :
    scalarValue style.kind (write style s) = Text.trim s := by
  have hrow : '\n' ∉ s.flatMap (written style) := by
    intro hn
    have hbreak := Syntax.Quoted.not_break_of_mem_write style hs '\n' (by simp [write, hn])
    cases hbreak
  have hfold : fold (unquoted style.quote (write style s)) = (Text.trim s).flatMap (written style) := by
    rw [unquoted_write, fold_of_row hrow, trim_written]
  cases style with
  | single => exact (congrArg single hfold).trans (single_written _)
  | double => exact (congrArg unescape hfold).trans (unescape_written _)

/-! ### Keys -/

/-- The content of the key that an entry read from the tree has. -/
def keyContent? : Tree → Option Tree
  | .leaf _ _ => none
  | .node k parts =>
    if k == .flowNode then content? (.node k parts)
    else ((parts.takeWhile (·.kind != .valueMark)).find? (isWrapper ·.kind)).bind content?

/-- A scalar as a key is decoded like a scalar as a value. -/
private theorem key_of_scalar {e : Entry} {t : Tree} {k : Kind} {span : Span} {raw : List Char}
    (h : e.LoweredFrom cs t) (hkey : keyContent? t = some (.leaf k span)) (hk : isScalar k = true)
    (hraw : Text.slice? cs span.start span.stop = some raw) : e.key = .ofList (scalarValue k raw) := by
  have hslice : Node.raw cs (.leaf k span) = raw := congrArg (Option.getD · []) hraw
  have hkeyText {key : Tree} (hcontent : content? key = some (.leaf k span)) :
      keyText cs key = .ofList (scalarValue k raw) := by
    rw [keyText, hcontent]
    simp [Tree.kind, hk, hslice]
  obtain ⟨depth, h⟩ := h
  cases t with
  | leaf k s => cases hkey
  | node l parts =>
    rw [entriesOf, entriesOf] at h
    split at h
    · rename_i hpair
      have hpair : l = .blockMappingPair ∨ l = .flowPair := by simpa using hpair
      have hnode : ¬(l == .flowNode) = true := by rcases hpair with rfl | rfl <;> decide
      rw [keyContent?, if_neg hnode, Option.bind_eq_some_iff] at hkey
      obtain ⟨key, hfind, hcontent⟩ := hkey
      have hpairKey : pairKey cs parts = .ofList (scalarValue k raw) := by
        rw [pairKey, hfind]
        exact hkeyText hcontent
      split at h <;> cases h <;> exact hpairKey
    split at h <;> cases h
    rename_i hnode
    rw [keyContent?, if_pos hnode] at hkey
    exact hkeyText hkey

end Node

open Node (syntaxParts keyContent?)

/-! ### Texts -/

private theorem isBlank_iff_of_isAscii (hc : isAscii c = true) :
    Text.isBlank c = true ↔ c = ' ' := by
  constructor
  · intro h
    simp only [isAscii, Text.isBlank, Bool.and_eq_true, Bool.or_eq_true, decide_eq_true_eq, beq_iff_eq] at hc h
    exact Char.toNat_inj.mp (show c.toNat = 32 by omega)
  · rintro rfl
    rfl

/-- Nothing is lost only where there are no blanks at the ends. -/
private theorem trim_eq_self_iff_of_isAscii (hs : ∀ c ∈ s, isAscii c = true) :
    Text.trim s = s ↔ s.head? ≠ some ' ' ∧ s.getLast? ≠ some ' ' := by
  rw [Text.trim_eq_self_iff]
  have hends {o : Option Char} (ho : ∀ c, o = some c → c ∈ s) :
      (∀ c, o = some c → Text.isBlank c = false) ↔ o ≠ some ' ' := by
    constructor
    · rintro h rfl
      cases h ' ' rfl
    · rintro h c rfl
      rw [Bool.eq_false_iff, ne_eq, isBlank_iff_of_isAscii (hs c (ho c rfl))]
      rintro rfl
      exact h rfl
  rw [hends fun c hc => List.mem_of_mem_head? hc, hends fun c hc => List.mem_of_getLast? hc]

private theorem isAside_kind (style : Style) : Node.isAside style.kind = false := by
  cases style <;> rfl

private theorem Node.ofTree?_quoted {depth : Nat} {span : Span} (hdepth : depth < maxDepth)
    (hs : ∀ c ∈ s, isAscii c = true)
    (hslice : Text.slice? cs span.start span.stop = some (write style s)) :
    ofTree? cs depth (.leaf style.kind span) =
      some (.scalar (contentSpan cs (.leaf style.kind span)) (.ofList (Text.trim s))) := by
  have hraw : raw cs (.leaf style.kind span) = write style s := congrArg (Option.getD · []) hslice
  rw [ofTree?, if_neg (Nat.not_le_of_lt hdepth), hraw, scalarValue_write style hs]

/-- A mapping with one pair, a text in quotes on either side of its colon. -/
private theorem Node.ofTree?_quotedPair {style' : Style} {v : List Char} {key value : Span}
    (colon : Span)
    (hs : ∀ c ∈ s, isAscii c = true) (hv : ∀ c ∈ v, isAscii c = true)
    (hkey : Text.slice? cs key.start key.stop = some (write style s))
    (hvalue : Text.slice? cs value.start value.stop = some (write style' v)) : ∃ root pair value',
      ofTree? cs 0 (.node .blockMapping [.node .blockMappingPair [.node .flowNode [.leaf style.kind key],
        .leaf .valueMark colon, .node .flowNode [.leaf style'.kind value]]]) =
          some (.mapping root [.pair pair (.ofList (Text.trim s)) (.scalar value' (.ofList (Text.trim v)))]) := by
  generalize hparts : [Syntax.Tree.node .flowNode [.leaf style.kind key], .leaf .valueMark colon,
    .node .flowNode [.leaf style'.kind value]] = parts
  have hlowered := ofTree?_quoted (show 1 < maxDepth by decide) hv hvalue
  have hvalueOf : valueOf? cs 1 false parts =
      some (.scalar (contentSpan cs (.leaf style'.kind value)) (.ofList (Text.trim v))) := by
    rw [← hparts, ← hlowered]
    cases style' <;> rfl
  have hentries : entriesOf cs 0 [.node .blockMappingPair parts] =
      [.pair (contentSpan cs (.node .blockMappingPair parts)) (pairKey cs parts)
        (.scalar (contentSpan cs (.leaf style'.kind value)) (.ofList (Text.trim v)))] := by
    rw [entriesOf, entriesOf, hvalueOf]
    rfl
  have hcontent : keyContent? (.node .blockMappingPair parts) = some (.leaf style.kind key) := by
    rw [← hparts]
    cases style <;> rfl
  have hpairKey : pairKey cs parts = .ofList (Text.trim s) := by
    rw [← scalarValue_write style hs]
    exact key_of_scalar ⟨0, hentries⟩ hcontent (by cases style <;> rfl) hkey
  rw [hpairKey] at hentries
  exact ⟨contentSpan cs (.node .blockMapping [.node .blockMappingPair parts]), _, _, by
    rw [ofTree?, if_neg (by decide), if_neg (by decide), hentries]⟩

private theorem parse_write (style : Style) (hs : ∀ c ∈ s, isAscii c = true) :
    ∃ span, parse (.ofList (write style s)) = .ok (some (.scalar span (.ofList (Text.trim s)))) := by
  obtain ⟨r, hr, hopen⟩ := Syntax.write_eq_cons style s
  have hrest : (Layout.ofText (write style s)).rest = write style s ++ (List.replicate 0 ' ' ++ []) := by
    rw [(Syntax.opening_of_isOpening hr hopen).rest, ← hr]
    simp
  obtain ⟨span, u, hread, hu, -, hin⟩ := Syntax.flowContent_quoted
    (.ofDepth (2 * (write style s).length + 2)) false .top 0 hs hrest rfl (by simp)
  obtain ⟨hslice, -⟩ := hin _ (Layout.ofText_sound _).inText
  have hparse := parse_of_flowContent hr hopen hread hu (isAside_kind style) (by cases style <;> rfl)
  rw [Node.ofTree?_quoted (by decide) hs hslice] at hparse
  exact ⟨_, hparse⟩

private theorem parse_pair (style style' : Style) {v : List Char} (hs : ∀ c ∈ s, isAscii c = true)
    (hv : ∀ c ∈ v, isAscii c = true) : ∃ root pair value,
      parse (.ofList (write style s ++ ':' :: ' ' :: write style' v)) =
        .ok (some (.mapping root [.pair pair (.ofList (Text.trim s)) (.scalar value (.ofList (Text.trim v)))])) := by
  obtain ⟨r, hr, hopen⟩ := Syntax.write_eq_cons style s
  generalize hcs : write style s ++ ':' :: ' ' :: write style' v = cs
  have hcons : cs = style.quote :: (r ++ ':' :: ' ' :: write style' v) := by rw [← hcs, hr, List.cons_append]
  obtain ⟨key, colon, value, u, hnode, hu, hin⟩ := Syntax.nodeHere_pair (s := .ofText cs) (2 * cs.length + 1) hs hv
    (by rw [hcs, hcons]; exact Syntax.opening_of_isOpening rfl hopen)
  obtain ⟨hkey, hvalue⟩ := hin _ (Layout.ofText_sound _).inText
  obtain ⟨root, pair, value', hroot⟩ := Node.ofTree?_quotedPair colon hs hv hkey hvalue
  have hparse := parse_of_opening hcons hopen hnode hu (.inl rfl) rfl (by cases style <;> cases style' <;> rfl)
  exact ⟨root, pair, value', by rw [hparse, hroot]⟩

/-- A text that is written between quotes is read as that text without the blanks at its ends, alone,
on either side of the colon of a pair, and as the key of an entry in any text. -/
theorem parse_quoted_trims (style : Style) (hs : ∀ c ∈ s, isAscii c = true) :
    (∃ span, parse (.ofList (write style s)) = .ok (some (.scalar span (.ofList (Text.trim s))))) ∧
    (∀ style' v, (∀ c ∈ v, isAscii c = true) → ∃ root pair value,
      parse (.ofList (write style s ++ ':' :: ' ' :: write style' v)) =
        .ok (some (.mapping root [.pair pair (.ofList (Text.trim s)) (.scalar value (.ofList (Text.trim v)))]))) ∧
    (∀ text root, parse text = .ok (some root) → ∀ m, root.Holds m → ∀ e ∈ m.entries,
      (∃ t ∈ syntaxParts text.toList, e.LoweredFrom text.toList t) ∧
        ∀ t span, e.LoweredFrom text.toList t → keyContent? t = some (.leaf style.kind span) →
          Text.slice? text.toList span.start span.stop = some (write style s) →
            e.key = .ofList (Text.trim s)) ∧
    (Text.trim s = s ↔ s.head? ≠ some ' ' ∧ s.getLast? ≠ some ' ') := by
  refine ⟨parse_write style hs, fun style' v hv => parse_pair style style' hs hv, ?_,
    trim_eq_self_iff_of_isAscii hs⟩
  intro text root h m hm e he
  obtain ⟨ts, d, start, stop, hreads⟩ := reads_of_parse h
  obtain ⟨t, ht, hroot⟩ := hreads.root_loweredFrom
  obtain ⟨u, hu, hlow⟩ := hroot.holds hm
  obtain ⟨w, hw, hentry⟩ := hlow.entry he
  have hparts : w ∈ syntaxParts text.toList := by
    rw [hreads.parts_eq] at ht ⊢
    exact (Tree.of_mem_preorderList _ ht).2 ((Tree.of_mem_preorder _ hu).2 hw)
  refine ⟨⟨w, hparts, hentry⟩, fun t span hlow hkey hslice => ?_⟩
  rw [Node.key_of_scalar hlow hkey (by cases style <;> rfl) hslice, Node.scalarValue_write style hs]

theorem parse_quoted_guards : ∃ root pair value, parse "\"\\\\'\\\"\": 'it''s'" =
    .ok (some (.mapping root [.pair pair "\\'\"" (.scalar value "it's")])) := by
  have hkey : ∀ c ∈ ['\\', '\'', '"'], isAscii c = true := List.all_eq_true.mp rfl
  have hvalue : ∀ c ∈ ['i', 't', '\'', 's'], isAscii c = true := List.all_eq_true.mp rfl
  obtain ⟨-, hpair, -⟩ := parse_quoted_trims .double hkey
  exact hpair .single ['i', 't', '\'', 's'] hvalue

/-- The blank between the quotes is lost. -/
theorem blank_between_quotes_lost : "' a'".toList = write .single [' ', 'a'] ∧
    (parse "' a'").toOption.join.bind Node.scalar? = some "a" := by
  decide +kernel

end YamlOutline
