import Mathlib.Data.List.Basic
import YamlOutline.Files.Find
import YamlOutline.Proofs.Text.Lowercase
import YamlOutline.Settings

/-! When a file is YAML. Two places decide it by the extension: the scan of a folder takes it as it
is written, the language of a document in small letters. Where both say the same is told here from
the list of extensions; capitals outside A to Z are not the only place where they differ. -/

namespace YamlOutline.Files
open Text (HasFarCapital eqIgnoringCase lowercase)

namespace Path
variable {extensions : List String} {path x : String}

/-- The extension is in the list, the case of A to Z left aside. -/
def Listed (extensions : List String) (x : String) : Prop :=
  ∃ e ∈ extensions, eqIgnoringCase e x = true

private theorem any_eqIgnoringCase_iff :
    extensions.any (eqIgnoringCase · x) = true ↔ Listed extensions x :=
  List.any_eq_true

private theorem listed_empty_iff : Listed extensions "" ↔ "" ∈ extensions := by
  have hempty (e : String) : eqIgnoringCase e "" = true ↔ e = "" := by
    rw [Text.eqIgnoringCase_iff]
    simp
  simp only [Listed, hempty, exists_eq_right]

theorem hasExtension_iff :
    hasExtension path extensions = true ↔
      ∃ x, extension? path = some x ∧ Listed extensions x := by
  rw [hasExtension]
  cases extension? path with
  | none => simp
  | some x => simp only [any_eqIgnoringCase_iff, Option.some.injEq, exists_eq_left']

/-- An extension that is `yaml` but for the case of A to Z makes a file YAML, listed or not. -/
private theorem language_eq_yaml_iff :
    language path extensions = Document.yamlLanguage ↔
      Listed extensions (lowercase ((extension? path).getD "")) ∨
        eqIgnoringCase ((extension? path).getD "") "yaml" = true := by
  have hyaml : ∀ d ∈ "yaml".toList, d.isLower = true ∧ d ≠ 'k' := by simp
  rw [language, ← any_eqIgnoringCase_iff, ← Text.lowercase_eq_iff hyaml, Document.yamlLanguage]
  generalize lowercase ((extension? path).getD "") = small
  by_cases hlisted : extensions.any (eqIgnoringCase · small) = true
  · simp [hlisted]
  · by_cases hempty : small.isEmpty = true
    · obtain rfl := String.isEmpty_iff.mp hempty
      simp [hlisted]
    · simp [hlisted, hempty]

/-- What a list must hold for a path to be YAML exactly if its extension is listed. -/
structure Fair (extensions : List String) (path : String) : Prop where
  /-- The empty extension is not listed where it would stand for no extension. -/
  unnamed : extension? path = none → "" ∉ extensions
  /-- The name of the language is listed where it is the extension. -/
  usual : ∀ x, extension? path = some x → eqIgnoringCase x "yaml" = true → Listed extensions x
  /-- An extension with a capital outside A to Z is listed exactly if its small form is. -/
  paired : ∀ x, extension? path = some x → HasFarCapital x →
    (Listed extensions (lowercase x) ↔ Listed extensions x)

private theorem listed_lowercase_iff (h : ¬ HasFarCapital x) :
    Listed extensions (lowercase x) ↔ Listed extensions x := by
  simp only [Listed, Text.eqIgnoringCase_lowercase h]

private theorem not_hasFarCapital_of_yaml (h : eqIgnoringCase x "yaml" = true) :
    ¬ HasFarCapital x := by
  apply Text.not_hasFarCapital
  intro c hc
  have hmem : c.toLower ∈ "yaml".toList.map Char.toLower :=
    Text.eqIgnoringCase_iff.mp h ▸ List.mem_map_of_mem hc
  have hlt : ∀ d ∈ "yaml".toList.map Char.toLower, d.toNat < 0x80 := by simp
  exact Text.toNat_toLower_lt_iff.mp (hlt _ hmem)

private theorem language_agrees_iff :
    (language path extensions = Document.yamlLanguage ↔ hasExtension path extensions = true) ↔
      Fair extensions path := by
  rw [language_eq_yaml_iff, hasExtension_iff]
  cases hx : extension? path with
  | none =>
    have hyaml : eqIgnoringCase "" "yaml" = false := by decide +kernel
    have hsmall : lowercase "" = "" := by decide +kernel
    simp only [Option.getD_none, hsmall, listed_empty_iff, hyaml, Bool.false_eq_true, or_false,
      reduceCtorEq, false_and, exists_false, iff_false]
    constructor
    · intro h
      exact ⟨fun _ => h, by simp [hx], by simp [hx]⟩
    · intro h
      exact h.unnamed hx
  | some x =>
    simp only [Option.getD_some, Option.some.injEq, exists_eq_left']
    have hfair : Fair extensions path ↔
        (eqIgnoringCase x "yaml" = true → Listed extensions x) ∧
          (HasFarCapital x → (Listed extensions (lowercase x) ↔ Listed extensions x)) := by
      constructor
      · intro h
        exact ⟨h.usual x hx, h.paired x hx⟩
      · rintro ⟨husual, hpaired⟩
        refine ⟨by simp [hx], fun y hy => ?_, fun y hy => ?_⟩
        · obtain rfl := Option.some.inj (hx.symm.trans hy)
          exact husual
        · obtain rfl := Option.some.inj (hx.symm.trans hy)
          exact hpaired
    rw [hfair]
    by_cases hfar : HasFarCapital x
    · have hyaml : ¬ eqIgnoringCase x "yaml" = true := fun h => not_hasFarCapital_of_yaml h hfar
      simp only [iff_false_intro hyaml, or_false, false_imp_iff, hfar, true_imp_iff, true_and]
    · rw [listed_lowercase_iff hfar]
      simp only [hfar, false_imp_iff, and_true, or_iff_left_iff_imp]

/-- With the extensions of a user who chooses nothing, both say the same of every path. -/
theorem fair_standard (path : String) : Fair Settings.standard.extensions path where
  unnamed := by simp [Settings.standard]
  usual x _ hx := ⟨"yaml", by simp [Settings.standard], Text.eqIgnoringCase_comm x "yaml" ▸ hx⟩
  paired x _ _ := by
    have hsmall : ∀ t ∈ Settings.standard.extensions, ∀ d ∈ t.toList,
        d.isLower = true ∧ d ≠ 'k' := by simp [Settings.standard]
    simp only [Listed]
    refine exists_congr fun t => and_congr_right fun ht => ?_
    exact Text.eqIgnoringCase_lowercase_iff (hsmall t ht)

end Path

/-! ### Scanning a folder -/

variable {extensions : List String} {folder : String}

mutual
/-- The files below a folder, hidden ones and those in hidden folders excepted. -/
def seen (folder : String) : Item → List String
  | .file _ => []
  | .folder es => seenEntries folder es

def seenEntries (folder : String) : List Entry → List String
  | [] => []
  | .mk name item :: es =>
    let rest := seenEntries folder es
    let path := Path.join folder name
    if isHidden name then rest
    else
      match item with
      | .folder inner => seenEntries path inner ++ rest
      | .file _ => path :: rest
end

private theorem belowEntries_eq_filter (folder : String) : (es : List Entry) →
    belowEntries extensions folder es =
      (seenEntries folder es).filter (Path.hasExtension · extensions)
  | [] => by simp [belowEntries, seenEntries]
  | .mk name (.file _) :: es => by
    rw [belowEntries, seenEntries, belowEntries_eq_filter folder es]
    split
    · rfl
    · rw [List.filter_cons]
  | .mk name (.folder inner) :: es => by
    rw [belowEntries, seenEntries, belowEntries_eq_filter folder es,
      belowEntries_eq_filter (Path.join folder name) inner]
    split
    · rfl
    · rw [List.filter_append]

/-- A scan takes the files that have an extension from the list. -/
theorem mem_below_iff {item : Item} {path : String} :
    path ∈ below extensions folder item ↔
      path ∈ seen folder item ∧ Path.hasExtension path extensions = true := by
  cases item with
  | file c => simp [below, seen]
  | folder es => rw [below, seen, belowEntries_eq_filter, List.mem_filter]

/-- A file is YAML exactly if its extension is listed where the list is fair to its path. A scan
takes the YAML files and no others exactly if the list is fair to every file that it comes upon. -/
theorem language_and_scan_agree_iff_fair (extensions : List String) (path folder : String) (item : Item) :
    (Path.hasExtension path extensions = true ↔
      ∃ x, Path.extension? path = some x ∧ Path.Listed extensions x) ∧
    ((Path.language path extensions = Document.yamlLanguage ↔
      Path.hasExtension path extensions = true) ↔ Path.Fair extensions path) ∧
    ((∀ p ∈ seen folder item, p ∈ below extensions folder item ↔
      Path.language p extensions = Document.yamlLanguage) ↔
        ∀ p ∈ seen folder item, Path.Fair extensions p) := by
  refine ⟨Path.hasExtension_iff, Path.language_agrees_iff, forall₂_congr fun p hp => ?_⟩
  rw [mem_below_iff, ← Path.language_agrees_iff]
  simp only [hp, true_and]
  exact Iff.comm

/-- The capital letter E with an accent is listed, but the small one that the language is told from
is not. -/
theorem listed_capital_not_yaml :
    Path.hasExtension "a.É" ["É"] = true ∧
      Path.language "a.É" ["É"] ≠ Document.yamlLanguage := by
  decide +kernel

end YamlOutline.Files
