import YamlOutline.Parse
import YamlOutline.Proofs.Summary.Printing

/-! What the labels of a document are made of, and which documents have an outline that can be
printed and read again. Values are put on one line before they become part of a label; keys are not,
so that it depends on the keys. -/

namespace YamlOutline.Outline

open Summary (Printable entriesOf linesIn)

/-- A key that makes a label, and the value after it if the label shows one. -/
structure Title where
  key : String
  value : Option String := none

namespace Title

def label (t : Title) : String :=
  match t.value with
  | none => t.key ++ ":"
  | some value => t.key ++ ": " ++ oneLine value

/-- The key neither begins with white space nor has a newline in it, and the value is not blank. -/
structure Legible (t : Title) : Prop where
  start : ∀ c, t.key.toList.head? = some c → Text.isBlank c = false
  line : '\n' ∉ t.key.toList
  value : ∀ v, t.value = some v → ∃ c ∈ v.toList, Text.isBlank c = false

/-- The title of an item of a sequence, if it has entries to be called after. -/
def ofItem? (n : Node) (source : String) : Option Title :=
  match n.entries with
  | [] => none
  | .bare _ key :: _ => some { key }
  | .pair _ key value :: _ => some { key, value := value.scalar?.getD (value.text source) }

end Title

mutual
/-- The titles of the items inside a node, in the order of the outline. -/
def titles (source : String) : Node → List Title
  | .mapping _ entries => titlesOfEntries source entries
  | .sequence _ items => titlesOfItems source items
  | .scalar _ _ | .null _ => []

def titlesOfEntries (source : String) : List Entry → List Title
  | [] => []
  | .bare _ _ :: es => titlesOfEntries source es
  | .pair _ key value :: es =>
    let rest := titlesOfEntries source es
    if value.isContainer then { key } :: titles source value ++ rest else rest

def titlesOfItems (source : String) : List Node → List Title
  | [] => []
  | n :: ns =>
    let rest := titlesOfItems source ns
    if n.isContainer then (Title.ofItem? n source).toList ++ titles source n ++ rest else rest
end

variable {source : String}

private theorem oneLine_printable (s : String) : Printable (oneLine s) := by
  simp [Printable, oneLine, Text.newline_notMem_singleLine]

/-- Only the ends of a text with a colon in it can lose blanks. -/
private theorem trim_colon_iff {key rest : List Char} :
    Text.trim (key ++ ':' :: rest) = key ++ ':' :: rest ↔
      (∀ c, key.head? = some c → Text.isBlank c = false) ∧
        ∀ c, (':' :: rest).getLast? = some c → Text.isBlank c = false := by
  rw [Text.trim_eq_self_iff, List.getLast?_append_of_ne_nil _ (by simp)]
  refine and_congr_left fun _ => ?_
  cases key with
  | nil => simp [Text.isBlank]
  | cons c key => rfl

/-- A text on one line ends what is put before it in no blank, unless it is empty itself. -/
private theorem getLast?_singleLine_iff (lead cs : List Char) :
    (∀ c, (lead ++ ' ' :: Text.singleLine cs).getLast? = some c → Text.isBlank c = false) ↔
      ∃ c ∈ cs, Text.isBlank c = false := by
  rw [List.getLast?_append_of_ne_nil _ (by simp)]
  cases hs : Text.singleLine cs with
  | nil =>
    have hblank := Text.singleLine_eq_nil_iff.mp hs
    refine iff_of_false (by simp [Text.isBlank]) ?_
    rintro ⟨c, hc, hn⟩
    exact Bool.false_ne_true (hn.symm.trans (hblank c hc))
  | cons d ds =>
    have hne : ¬ ∀ c ∈ cs, Text.isBlank c = true := by
      rw [← Text.singleLine_eq_nil_iff, hs]
      simp
    rw [List.getLast?_cons_cons, ← hs]
    exact iff_of_true (Text.trim_eq_self_iff.mp (Text.trim_singleLine cs)).2 (by simpa using hne)

/-- A label can be printed exactly if its title is legible. -/
private theorem Title.printable_label_iff (t : Title) : Printable t.label ↔ t.Legible := by
  obtain ⟨key, value⟩ := t
  cases value with
  | none =>
    have hl : (label ⟨key, none⟩).toList = key.toList ++ ':' :: [] := by simp [label]
    rw [Printable, hl, trim_colon_iff]
    constructor
    · rintro ⟨hn, hs, _⟩
      exact ⟨hs, by simpa using hn, nofun⟩
    · rintro ⟨hs, hn, _⟩
      exact ⟨by simpa using hn, hs, by simp [Text.isBlank]⟩
  | some v =>
    have hl : (label ⟨key, some v⟩).toList =
        key.toList ++ ':' :: ' ' :: Text.singleLine v.toList := by simp [label, oneLine]
    have hline := Text.newline_notMem_singleLine v.toList
    rw [Printable, hl, trim_colon_iff, ← List.singleton_append, getLast?_singleLine_iff]
    constructor
    · rintro ⟨hn, hs, hv⟩
      exact ⟨hs, fun hk => hn (List.mem_append_left _ hk), fun v' hv' => Option.some.inj hv' ▸ hv⟩
    · rintro ⟨hs, hn, hv⟩
      exact ⟨by simp [hn, hline], hs, hv v rfl⟩

private theorem printable_itemLabel_iff (n : Node) :
    Printable (itemLabel n source) ↔ ∀ t ∈ Title.ofItem? n source, t.Legible := by
  have hlabel : itemLabel n source =
      ((Title.ofItem? n source).map Title.label).getD (oneLine (n.text source)) := by
    unfold itemLabel Title.ofItem?
    rcases n.entries with _ | ⟨_ | _, _⟩ <;> rfl
  rw [hlabel]
  cases Title.ofItem? n source with
  | none => simp [oneLine_printable]
  | some t => simp [t.printable_label_iff]

/-! ### Outlines -/

/-- Every label below a node can be printed. -/
def AllPrintable (depth : Nat) (items : List Item) : Prop :=
  ∀ l ∈ linesIn (entriesOf depth items), Printable l.label

private theorem allPrintable_nil (depth : Nat) : AllPrintable depth [] := nofun

private theorem allPrintable_cons_iff {depth : Nat} {label : String} {span : Syntax.Span}
    {children items : List Item} :
    AllPrintable depth (.ofChildren label span children :: items) ↔
      Printable label ∧ AllPrintable (depth + 1) children ∧ AllPrintable depth items := by
  simp only [AllPrintable, Item.ofChildren, entriesOf, Summary.entryOf, linesIn,
    Summary.Entry.lines, List.cons_append, List.forall_mem_cons, List.forall_mem_append]

mutual
theorem allPrintable_ofNode_iff (source : String) (depth : Nat) : (n : Node) →
    (AllPrintable depth (ofNode source n) ↔ ∀ t ∈ titles source n, t.Legible)
  | .mapping _ entries => by
    rw [ofNode, titles]
    exact allPrintable_ofEntries_iff source depth entries
  | .sequence _ items => by
    rw [ofNode, titles]
    exact allPrintable_ofItems_iff source depth items
  | .scalar _ _ | .null _ => by
    rw [ofNode, titles]
    exact iff_of_true (allPrintable_nil depth) nofun

theorem allPrintable_ofEntries_iff (source : String) (depth : Nat) : (es : List Entry) →
    (AllPrintable depth (ofEntries source es) ↔ ∀ t ∈ titlesOfEntries source es, t.Legible)
  | [] => by
    rw [ofEntries, titlesOfEntries]
    exact iff_of_true (allPrintable_nil depth) nofun
  | .bare _ _ :: es => by
    rw [ofEntries, titlesOfEntries]
    exact allPrintable_ofEntries_iff source depth es
  | .pair span key value :: es => by
    have hrest := allPrintable_ofEntries_iff source depth es
    rw [ofEntries, titlesOfEntries]
    split
    · have hkey : Printable (key ++ ":") ↔ Title.Legible { key } := Title.printable_label_iff { key }
      rw [allPrintable_cons_iff, hkey, allPrintable_ofNode_iff source (depth + 1) value, hrest,
        List.cons_append, List.forall_mem_cons, List.forall_mem_append]
    · exact hrest

theorem allPrintable_ofItems_iff (source : String) (depth : Nat) : (ns : List Node) →
    (AllPrintable depth (ofItems source ns) ↔ ∀ t ∈ titlesOfItems source ns, t.Legible)
  | [] => by
    rw [ofItems, titlesOfItems]
    exact iff_of_true (allPrintable_nil depth) nofun
  | n :: ns => by
    have hrest := allPrintable_ofItems_iff source depth ns
    rw [ofItems, titlesOfItems]
    split
    · rw [allPrintable_cons_iff, printable_itemLabel_iff, allPrintable_ofNode_iff source (depth + 1) n,
        hrest, List.append_assoc, List.forall_mem_append, List.forall_mem_append]
      simp only [Option.mem_toList, Option.mem_def]
    · exact hrest
end

/-- The titles of a document; one without content has none. -/
def titlesOf (root : Option Node) (source : String) : List Title :=
  match root with
  | some n => titles source n
  | none => []

/-- The outline of a document, printed and read as a summary, is the same forest, with the same
labels and kinds and with two blanks of indentation for each level, exactly if every title in it is
legible: no key that makes a label begins with white space or has a newline in it, and no value that
ends a label is blank. -/
theorem build_read_back_iff (root : Option Node) (source : String) :
    Summary.parse (render (build root source)) = entriesOf 0 (build root source) ↔
      ∀ t ∈ titlesOf root source, t.Legible := by
  rw [Summary.parse_render_iff]
  cases root with
  | none => exact iff_of_true nofun nofun
  | some n => exact allPrintable_ofNode_iff source 0 n

/-- A newline that is escaped in a key breaks the line of its label: two lines are read for one, and
the item below stands below the second of them. -/
theorem broken_key_not_read_back :
    ∃ root, YamlOutline.parse "\"a\\nb\":\n  c:\n    d: 1\n" = .ok root ∧
      Summary.parse (render (build root "\"a\\nb\":\n  c:\n    d: 1\n")) ≠
        entriesOf 0 (build root "\"a\\nb\":\n  c:\n    d: 1\n") ∧
      (linesIn (entriesOf 0 (build root "\"a\\nb\":\n  c:\n    d: 1\n"))).map (·.label) = ["a\nb:", "c:"] ∧
      (linesIn (Summary.parse (render (build root "\"a\\nb\":\n  c:\n    d: 1\n")))).map (·.label) =
        ["a", "b:", "c:"] := by
  have hrun : ((YamlOutline.parse "\"a\\nb\":\n  c:\n    d: 1\n").toOption.map fun root =>
      ((linesIn (entriesOf 0 (build root "\"a\\nb\":\n  c:\n    d: 1\n"))).map (·.label),
        (linesIn (Summary.parse (render (build root "\"a\\nb\":\n  c:\n    d: 1\n")))).map (·.label))) =
      some (["a\nb:", "c:"], ["a", "b:", "c:"]) := by decide +kernel
  obtain ⟨root, hroot, hlabels⟩ := Option.map_eq_some_iff.mp hrun
  obtain ⟨hbuilt, hread⟩ := Prod.mk.inj hlabels
  refine ⟨root, ?_, fun he => ?_, hbuilt, hread⟩
  · cases hp : YamlOutline.parse "\"a\\nb\":\n  c:\n    d: 1\n" with
    | error e => simp [hp, Except.toOption] at hroot
    | ok r => simpa [hp, Except.toOption] using hroot
  · rw [he, hbuilt] at hread
    exact absurd hread (by decide)

end YamlOutline.Outline
