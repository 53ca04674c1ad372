import YamlOutline.Proofs.Node.Spans
import YamlOutline.Proofs.Reparse.Alone

/-! Excerpts of a text: what stands between the two ends of a span, put back into its column. -/

namespace YamlOutline
open Syntax (Span Tree Kind Layout Cursor Ordered AllGenuine ordered_append_iff padded)
open Text (IsBoundary size)

variable {cs before piece behind : List Char} {lo hi : Nat} {span : Span} {p : Tree}
  {ls : List (Kind × Span)} {l : Kind × Span}

/-! ### Columns -/

/-- What stands before an offset in its line, from right to left. -/
def Text.lineBefore (cs : List Char) (n : Nat) : List Char :=
  (Text.upTo cs n).reverse.takeWhile (· != '\n')

/-- Line and column, both from 0, of the end of `cs`; the column counts characters. -/
def Text.endPosition (cs : List Char) : Nat × Nat :=
  cs.foldl (fun (line, column) c => if c = '\n' then (line + 1, 0) else (line, column + 1)) (0, 0)

private theorem Text.endPosition_column (cs : List Char) :
    (Text.endPosition cs).2 = (cs.reverse.takeWhile (· != '\n')).length := by
  have hfold (cs : List Char) (c : Char) : Text.endPosition (cs ++ [c]) =
      if c = '\n' then ((Text.endPosition cs).1 + 1, 0)
      else ((Text.endPosition cs).1, (Text.endPosition cs).2 + 1) := by
    rw [Text.endPosition, List.foldl_append]
    rfl
  induction cs using List.reverseRecOn with
  | nil => rfl
  | append_singleton cs c ih =>
    rw [hfold, List.reverse_concat, List.takeWhile_cons]
    by_cases hc : c = '\n'
    · simp [hc]
    · simp [hc, ih]

namespace Syntax.Cursor

/-- A place stands in the column that counts the characters of its row. -/
private theorem column_drop (p : Cursor) (n : Nat) (hp : p.column = 0) :
    (p.drop n).column = ((p.rest.take n).reverse.takeWhile fun c => !isBreak c).length := by
  induction n with
  | zero => simp [hp, Cursor.drop]
  | succ n ih =>
    rw [← drop_add p n 1]
    change (p.drop n).next.column = _
    have hrest := rest_drop p n
    rw [column_next, List.take_add_one]
    rcases Nat.lt_or_ge n p.rest.length with hlt | hge
    · rw [hrest, List.drop_eq_getElem_cons hlt, List.getElem?_eq_getElem hlt]
      simp only [Option.toList_some, List.reverse_concat, List.takeWhile_cons]
      by_cases hb : isBreak p.rest[n] = true
      · simp [hb]
      · simp [hb, ih]
    · rw [hrest, List.drop_of_length_le hge, List.getElem?_eq_none hge]
      simpa using ih

end Syntax.Cursor

/-- What a row needs for its columns to be counted in the same way by the grammar: no line ends in it,
and it has no byte order mark. -/
def Text.IsPlainRow (row : List Char) : Prop :=
  ∀ c ∈ row, c ≠ '\r' ∧ c.toNat ≠ 0xFEFF

private theorem takeWhile_congr_of_all {α : Type} {f g : α → Bool} {l : List α}
    (hfg : ∀ a, g a = true → f a = true)
    (h : ∀ a ∈ l.takeWhile f, g a = true) : l.takeWhile g = l.takeWhile f := by
  induction l with
  | nil => rfl
  | cons a l ih =>
    rw [List.takeWhile_cons, List.takeWhile_cons]
    by_cases hf : f a = true
    · rw [List.takeWhile_cons, if_pos hf] at h
      obtain ⟨ha, hl⟩ := List.forall_mem_cons.mp h
      rw [if_pos ha, if_pos hf, ih hl]
    · rw [if_neg hf, if_neg fun hg => hf (hfg a hg)]

private theorem Syntax.Cursor.In.column_eq {q : Cursor} (h : q.In cs)
    (hrow : Text.IsPlainRow (Text.lineBefore cs q.offset)) :
    q.column = (Text.lineBefore cs q.offset).length := by
  obtain ⟨n, rfl⟩ := h
  obtain ⟨mark, hcs, ho, hcolumn, hmark⟩ := Syntax.Cursor.ofText_read cs
  rw [Cursor.column_drop _ n hcolumn]
  generalize Cursor.ofText cs = p at *
  subst hcs
  have hread : Text.upTo (mark ++ p.rest) (p.drop n).offset = mark ++ p.rest.take n := by
    have hupTo := Text.upTo_append (mark ++ p.rest.take n) (p.rest.drop n)
    rw [List.append_assoc, List.take_append_drop] at hupTo
    rw [Cursor.offset_drop, ho, ← Text.size_append, hupTo]
  rw [Text.lineBefore, hread, List.reverse_append] at hrow ⊢
  have hline : ((p.rest.take n).reverse ++ mark.reverse).takeWhile (· != '\n') =
      (p.rest.take n).reverse.takeWhile (· != '\n') := by
    rw [List.takeWhile_append] at hrow ⊢
    split
    · rename_i hall
      rw [if_pos hall] at hrow
      have hnone : mark.reverse.takeWhile (· != '\n') = [] := by
        refine List.eq_nil_iff_forall_not_mem.mpr fun c hc => ?_
        have hm := hmark c (List.mem_reverse.mp (List.takeWhile_prefix _ |>.subset hc))
        exact (hrow c (List.mem_append_right _ hc)).2 hm
      rw [hnone, List.append_nil]
      exact ((List.takeWhile_prefix _).eq_of_length hall).symm
    · rfl
  rw [hline] at hrow ⊢
  refine congrArg List.length (takeWhile_congr_of_all (fun c hc => ?_) fun c hc => ?_)
  · simp [Syntax.isBreak] at hc
    simpa using hc.1
  · have hne : c ≠ '\n' := by simpa using List.mem_takeWhile_imp hc
    simp [Syntax.isBreak, hne, (hrow c hc).1]

/-! ### Pieces of a text -/

/-- The leaves up to the last token are no longer than the token reaches. -/
private theorem clear_of_last {ts : List Tree} (ho : Ordered cs lo hi (Tree.leavesList ts))
    (hl : (Tree.leavesList ts).reverse.find? (fun l => Node.isToken l.1 l.2) = some l) :
    Syntax.Clear l.2.stop ts ∧ l.2.stop ≤ hi := by
  obtain ⟨htoken, later, earlier, hreverse, hlater⟩ := List.find?_eq_some_iff_append.mp hl
  have hls : Tree.leavesList ts = earlier.reverse ++ [l] ++ later.reverse := by
    rw [← List.reverse_reverse (Tree.leavesList ts), hreverse]
    simp
  rw [hls] at ho
  obtain ⟨mid, ho, hafter⟩ := ordered_append_iff.mp ho
  obtain ⟨start, hbefore, hlast⟩ := ordered_append_iff.mp ho
  obtain ⟨hstart, -, -, -, hmid⟩ := hlast
  have hmid : l.2.stop ≤ mid := hmid
  have hlt := Syntax.lt_of_isToken htoken
  refine ⟨fun x hx => ?_, hmid.trans hafter.le⟩
  rw [hls] at hx
  rcases List.mem_append.mp hx with hx | hx
  · rcases List.mem_append.mp hx with hx | hx
    · have hle := (hbefore.of_mem hx).2.2.1
      split <;> omega
    · obtain rfl := List.mem_singleton.mp hx
      rw [if_pos htoken]
  · have hle := (hafter.of_mem hx).1
    have hx := hlater x (List.mem_reverse.mp hx)
    rw [if_neg (by simpa using hx)]
    omega

/-- The text of a span, with as many blanks before it as characters stand before it in its line. -/
def excerpt (cs : List Char) (span : Span) : List Char :=
  padded (Text.endPosition (Text.upTo cs span.start)).2 ((Text.slice? cs span.start span.stop).getD [])

/-- The piece of the text from `s` on up to `stop`, with no blank at its end. -/
structure Piece (s : Layout) (stop : Nat) (piece behind : List Char) : Prop where
  ne_nil : piece ≠ []
  rest : s.rest = piece ++ behind
  ends : s.cursor.offset + size piece = stop
  last : ∀ c, piece.getLast? = some c → Text.isBlank c = false

namespace Piece
variable {s : Layout} {stop : Nat}

private theorem exists_before (h : Piece s stop piece behind) (hs : s.Sound cs) :
    ∃ before, cs = before ++ piece ++ behind ∧ s.cursor.offset = size before := by
  obtain ⟨before, hcs, hbefore⟩ := hs.inText.read
  have hrest : s.cursor.rest = piece ++ behind := h.rest
  exact ⟨before, by rw [hcs, hrest, List.append_assoc], hbefore⟩

private theorem slice? (h : Piece s stop piece behind) (hs : s.Sound cs) :
    Text.slice? cs s.cursor.offset stop = some piece := by
  obtain ⟨before, hcs, hbefore⟩ := h.exists_before hs
  rw [hcs, ← h.ends, hbefore, Text.slice?_append]

private theorem dropBytes? (h : Piece s stop piece behind) (hs : s.Sound cs) :
    Text.dropBytes? cs stop = some behind := by
  obtain ⟨before, hcs, hbefore⟩ := h.exists_before hs
  rw [hcs, ← h.ends, hbefore, ← Text.size_append, Text.dropBytes?_append]

end Piece

/-- The last token of a part of a tree, if the part ends with it: nothing of the part reaches further, and
trimming takes nothing away from the token. -/
private theorem last_of_part {s u : Layout} (hstands : Syntax.Stands cs s p u)
    (hwhole : ∀ last, Node.lastToken? p = some last → last.stop = (Node.contentSpan cs p).stop) :
    ∃ l ∈ p.leaves, Node.isToken l.1 l.2 = true ∧ l.2.stop = (Node.contentSpan cs p).stop ∧
      l.2.stop = l.2.start + size (Text.trimEnd ((Text.slice? cs l.2.start l.2.stop).getD [])) ∧
      Syntax.Clear l.2.stop [p] ∧ l.2.stop ≤ u.cursor.offset := by
  obtain ⟨m, hm, htoken, -⟩ := hstands.begins
  obtain ⟨l, hl, hfind, hstop⟩ := Node.stop_of_content cs ⟨m, by simpa using hm, htoken⟩
  have hlast : l.2.stop = (Node.contentSpan cs p).stop :=
    hwhole l.2 (by rw [Node.lastToken?_eq, hfind]; rfl)
  have hspan : (Node.contentSpan cs p).stop = Node.stopOf cs p.leaves := by
    rw [Node.contentSpan_eq]
    rfl
  exact ⟨l, hl, by simpa using List.find?_some hfind, hlast, by rw [← hstop, ← hspan, hlast],
    clear_of_last (by simpa using hstands.laid) (by simpa using hfind)⟩

/-- A part of a tree that begins at `s` and ends with its last token, and its text. -/
private theorem piece_of_part {s u : Layout} (hstands : Syntax.Stands cs s p u)
    (hwhole : ∀ last, Node.lastToken? p = some last → last.stop = (Node.contentSpan cs p).stop) :
    (Node.contentSpan cs p).start = s.cursor.offset ∧ (Node.contentSpan cs p).stop ≤ u.cursor.offset ∧
      Syntax.Clear (Node.contentSpan cs p).stop [p] ∧
      ∃ piece behind, Piece s (Node.contentSpan cs p).stop piece behind := by
  obtain ⟨l, hl, htoken, hstop, htrimmed, hclear, hle⟩ := last_of_part hstands hwhole
  obtain ⟨m, hm, hmtoken, hmstart⟩ := hstands.begins
  rw [Tree.leavesList_cons, Tree.leavesList_nil, List.append_nil] at hm
  have hstart : (Node.contentSpan cs p).start = s.cursor.offset := by
    rw [Node.contentSpan_eq]
    obtain ⟨-, hlo, -⟩ := Node.extent_fits hstands.laid ⟨m, hm, hmtoken⟩
    exact Nat.le_antisymm (hmstart ▸ Node.start_le_of_mem hstands.laid hm) hlo
  rw [← hstop]
  refine ⟨hstart, hle, hclear, ?_⟩
  -- the token ends where the piece does
  obtain ⟨hfirst, -, -, hboundary, hboundary'⟩ := hstands.laid.of_mem hl
  have hlt := Syntax.lt_of_isToken htoken
  obtain ⟨before, piece, behind, hcs, hbefore, hpiece⟩ :=
    hstands.sound.inText.boundary.cut hboundary' (hfirst.trans hlt.le)
  obtain ⟨before', token, behind', hcs', hbefore', htokenstop⟩ := hboundary.cut hboundary' hlt.le
  have hne : token ≠ [] := by
    rintro rfl
    simp only [size] at htokenstop
    omega
  have hne' : piece ≠ [] := by
    rintro rfl
    simp only [size] at hpiece
    omega
  refine ⟨piece, behind, hne', ?_, by rw [hpiece, hbefore], ?_⟩
  · obtain ⟨front, hfront, hoffset⟩ := hstands.sound.inText.read
    have hdrop := Text.dropBytes?_append front s.cursor.rest
    rw [← hfront, ← hoffset, hbefore, hcs, List.append_assoc, Text.dropBytes?_append] at hdrop
    exact (Option.some.inj hdrop).symm
  · have hslice : Text.slice? cs l.2.start l.2.stop = some token := by
      rw [htokenstop, hbefore', hcs', Text.slice?_append]
    rw [hslice, Option.getD_some] at htrimmed
    rw [Text.getLast?_eq_of_same_end (hcs ▸ hcs') (hpiece ▸ htokenstop) hne' hne]
    exact Text.trimEnd_eq_self_iff.mp (Text.trimEnd_eq_self_of_size_le (by omega))

/-- The first token of a piece that stands alone in its column begins the piece. -/
private theorem Syntax.Opening.starts {s s' : Layout} {stop : Nat}
    (h : Syntax.Opening s.column piece s')
    (hpiece : Piece s stop piece behind) (hsealed : Syntax.Sealed piece behind) :
    Syntax.Starts behind stop s.cursor.row s s' := by
  have hrest' : s'.cursor.rest = piece := h.rest
  refine ⟨⟨?_, ?_, h.column.symm, ?_, ?_, ?_⟩, ?_, h.fresh, h.tabbed, h.comments⟩
  · rw [hrest']
    exact hpiece.rest
  · rw [hrest', hpiece.ends]
  · rw [h.row, Nat.zero_add]
  · rw [hrest']
    exact fun _ => hsealed
  · rw [hrest']
    intro c hc
    have hblank := hpiece.last c hc
    have ne (d : Char) (hd : Text.isBlank d = true) : (c == d) = false := by
      rw [beq_eq_false_iff_ne]
      rintro rfl
      rw [hd] at hblank
      cases hblank
    simp [Syntax.isWhite, Syntax.isBreak, ne ' ' rfl, ne '\t' rfl, ne '\n' rfl, ne '\r' rfl]
  · rw [h.rest]
    exact hpiece.ne_nil

/-- A stretch of a text that may be taken out of it: its columns are counted in characters, nothing that
follows it belongs to its last token, and a pair inside brackets does without them. -/
structure Detachable (cs : List Char) (span : Span) : Prop where
  row : Text.IsPlainRow (Text.lineBefore cs span.start)
  sealed : Syntax.Sealed ((Text.slice? cs span.start span.stop).getD []) ((Text.dropBytes? cs span.stop).getD [])
  whole : ∀ t ∈ (Tree.ofText cs).preorder, Node.contentSpan cs t = span →
    (Node.lastToken? t).map Span.stop = some span.stop
  pair : ∀ t ∈ (Tree.ofText cs).preorder, Node.contentSpan cs t = span → t.kind = .flowPair →
    Syntax.FitsBlock cs span.start (Text.lineBefore cs span.start).length
      ((Text.slice? cs span.start span.stop).getD []) t.children

instance (row : List Char) : Decidable (Text.IsPlainRow row) :=
  List.decidableBAll (fun c => c ≠ '\r' ∧ c.toNat ≠ 0xFEFF) row

instance (cs : List Char) (span : Span) : Decidable (Detachable cs span) :=
  decidable_of_iff (Text.IsPlainRow (Text.lineBefore cs span.start) ∧
      Syntax.Sealed ((Text.slice? cs span.start span.stop).getD []) ((Text.dropBytes? cs span.stop).getD []) ∧
      (∀ t ∈ (Tree.ofText cs).preorder, Node.contentSpan cs t = span →
        (Node.lastToken? t).map Span.stop = some span.stop) ∧
      ∀ t ∈ (Tree.ofText cs).preorder, Node.contentSpan cs t = span → t.kind = .flowPair →
        Syntax.FitsBlock cs span.start (Text.lineBefore cs span.start).length
          ((Text.slice? cs span.start span.stop).getD []) t.children)
    ⟨fun h => ⟨h.1, h.2.1, h.2.2.1, h.2.2.2⟩, fun h => ⟨h.row, h.sealed, h.whole, h.pair⟩⟩

private theorem Syntax.Kind.isCollection_pieceKind {k : Kind} (h : Syntax.isLaidOut k = true) :
    (Syntax.pieceKind k).isCollection = true ∧ (Syntax.pieceKind k).isMapping? = k.isMapping? := by
  cases k <;> cases h <;> exact ⟨rfl, rfl⟩

/-- A collection or pair that the rules laid out, taken out of its text and put back into its column. -/
private theorem origin_reads_alone (h : Syntax.Origin cs p) (hf : p.hasFault = false)
    (hk : Syntax.isLaidOut p.kind = true)
    (hmem : p ∈ (Tree.ofText cs).preorder) (hfit : Detachable cs (Node.contentSpan cs p)) :
    ∃ root, parse (.ofList (excerpt cs (Node.contentSpan cs p))) = .ok (some root) ∧
      root.isContainer = true ∧ p.kind.isMapping? = some root.isMapping := by
  obtain ⟨s, u, stands, heads, alone⟩ := h.alone hf
  have hwhole (last : Span) (hlast : Node.lastToken? p = some last) : last.stop = (Node.contentSpan cs p).stop := by
    simpa [hlast] using hfit.whole p hmem rfl
  obtain ⟨hstart, hstop, hclear, piece, behind, hpiece⟩ := piece_of_part stands hwhole
  obtain ⟨c, r, hcr, hopens, hpercent, hmark⟩ := heads.begins
  obtain ⟨hrow, hsealed, -, hpair⟩ := hfit
  have hslice := hpiece.slice? stands.sound
  rw [hstart, hslice, Option.getD_some] at hsealed hpair
  rw [hpiece.dropBytes? stands.sound, Option.getD_some] at hsealed
  rw [hstart] at hrow
  have hcolumn := stands.sound.inText.column_eq hrow
  have hexcerpt : excerpt cs (Node.contentSpan cs p) = padded s.column piece := by
    rw [excerpt, hstart, hslice, Option.getD_some, Text.endPosition_column]
    rw [Layout.column, hcolumn]
    rfl
  obtain ⟨d, piece', rfl⟩ := List.exists_cons_of_ne_nil hpiece.ne_nil
  obtain ⟨rfl, -⟩ : d = c ∧ piece' ++ behind = r := by
    have hrest := hpiece.rest
    rw [hcr, List.cons_append] at hrest
    exact ⟨(List.cons.inj hrest).1.symm, (List.cons.inj hrest).2.symm⟩
  have hopening := Layout.opening_ofText s.column (r := piece') hopens hmark
  rw [← hexcerpt] at hopening
  have hlength : (d :: piece').length ≤ (excerpt cs (Node.contentSpan cs p)).length := by
    rw [hexcerpt, padded, List.length_append]
    exact Nat.le_add_left _ _
  have hstarts := hopening.starts hpiece hsealed
  obtain ⟨k, ts, u', hnode, hk', hfts, hdone, hquiet⟩ :=
    alone (m := 2 * (excerpt cs (Node.contentSpan cs p)).length + 2) hstarts hstop hclear (by
      rw [hopening.rest]
      omega) fun hkind => by
        have hfits := hpair p hmem rfl hkind
        rwa [hopening.rest, Layout.column, hcolumn]
  have hlive := hstarts.live
  have hend : (Layout.ofText (excerpt cs (Node.contentSpan cs p))).atEnd = false := by
    simp only [Syntax.opensToken, Bool.and_eq_true, Bool.not_eq_true'] at hopens
    rw [Layout.atEnd, hopening.rest]
    exact hopens.1.1.2
  have hpercent' : (Layout.ofText (excerpt cs (Node.contentSpan cs p))).at? '%' = false := by
    simpa [Layout.at?, hopening.rest] using hpercent
  obtain ⟨hcollection, hmapping⟩ := Syntax.Kind.isCollection_pieceKind hk
  rw [← hmapping]
  exact parse_of_node hopening.fresh hopening.comments hend (hlive.atDocument ▸ heads.noMarker) hpercent' hnode hdone
    hk' hcollection hfts hquiet

/-- Whatever an outline shows, taken out of the text and put back into its column, is a text of its own:
a mapping where an entry is shown, and a collection of the same kind where an item of a sequence is. -/
theorem parse_excerpts {text : String} {root : Node} (h : parse text = .ok (some root)) :
    Outline.spans (Outline.build (some root) text) = (Outline.sources root).map Outline.Source.span ∧
      ∀ d ∈ Outline.sources root, Detachable text.toList d.span →
        ∃ node, parse (.ofList (excerpt text.toList d.span)) = .ok (some node) ∧ node.isContainer = true ∧
          node.isMapping = d.isMapping := by
  refine ⟨Outline.spans_ofNode text root, fun d hd hfit => ?_⟩
  obtain ⟨k, parts, hmem, hspan, hk⟩ := parse_stems h d hd
  have hf : (Tree.ofText text.toList).hasFault = false := by
    unfold parse at h
    simp only at h
    split at h
    · cases h
    · rename_i hf
      simpa using hf
  rw [Tree.preorderList, Tree.preorderList, List.append_nil] at hmem
  have hlaid : Syntax.isLaidOut k = true := by
    cases k <;> first | rfl | cases hk
  obtain ⟨ts, hts, hg, -⟩ := Tree.ofText_read hf
  have horigin : Syntax.Origin text.toList (.node k parts) := by
    have hmem := hmem
    rw [hts, Tree.preorder, List.mem_cons] at hmem
    rcases hmem with heq | hmem
    · cases heq
      cases hk
    · exact (hg _ hmem).2 hlaid
  rw [← hspan] at hfit ⊢
  obtain ⟨node, hparse, hcontainer, hkind⟩ :=
    origin_reads_alone horigin (Tree.hasFault_part _ hmem hf) hlaid hmem hfit
  exact ⟨node, hparse, hcontainer, Option.some.inj (hkind.symm.trans hk)⟩

theorem parse_excerpts_flowInBlock : ∃ root,
    parse "a:\n- [b: [1], c]\n" = .ok (some root) ∧
      (Outline.sources root).map Outline.Source.isMapping = [true, false, true, true] ∧
      ∀ d ∈ Outline.sources root, ∃ node,
        parse (.ofList (excerpt "a:\n- [b: [1], c]\n".toList d.span)) = .ok (some node) ∧
          node.isContainer = true ∧ node.isMapping = d.isMapping := by
  have hread : ((parse "a:\n- [b: [1], c]\n").toOption.join.map fun root =>
      ((Outline.sources root).map Outline.Source.isMapping, (Outline.sources root).all fun d =>
        decide (Detachable "a:\n- [b: [1], c]\n".toList d.span))) =
      some ([true, false, true, true], true) := by
    decide +kernel
  obtain ⟨root, hroot, hsources⟩ := Option.map_eq_some_iff.mp hread
  have hroot : parse "a:\n- [b: [1], c]\n" = .ok (some root) := by
    cases hp : parse "a:\n- [b: [1], c]\n" with
    | error e => simp [hp, Except.toOption] at hroot
    | ok r => simpa [hp, Except.toOption] using hroot
  obtain ⟨hkinds, hdetachable⟩ := Prod.mk.inj hsources
  exact ⟨root, hroot, hkinds, fun d hd =>
    (parse_excerpts hroot).2 d hd (of_decide_eq_true (List.all_eq_true.mp hdetachable d hd))⟩

/-- The value of a pair in brackets may follow a quoted key without a blank, and needs one elsewhere. -/
theorem excerpt_of_adjacent_value_rejected :
    (parse "\x7b\"x\":[1]\x7d").toOption.join.map (fun root => (Outline.sources root).map fun d =>
      (d.isMapping, (parse (.ofList (excerpt "\x7b\"x\":[1]\x7d".toList d.span))).toOption.isSome)) =
        some [(true, false)] := by
  decide +kernel

end YamlOutline
