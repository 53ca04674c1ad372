import YamlOutline.Proofs.Syntax.Within

/-! The fault that is told of a malformed text. The search enters only what has a fault, and where it finds
nothing it goes on behind; still it finds the first fault of all. -/

namespace YamlOutline

namespace Syntax.Tree

mutual
/-- Passing over the parts without a fault passes over no fault. -/
theorem firstFault?_eq_find? : (t : Tree) → firstFault? t = (preorder t).find? isFault
  | .leaf k s => by
    rw [firstFault?, preorder, List.find?_singleton]
  | .node k ts => by
    rw [firstFault?, preorder, List.find?_cons, firstFaultList?_eq_find? ts]
    split <;> simp_all

private theorem firstFaultList?_eq_find? :
    (ts : List Tree) → firstFaultList? ts = (preorderList ts).find? isFault
  | [] => by
    rw [firstFaultList?, preorderList]
    rfl
  | t :: ts => by
    rw [firstFaultList?, preorderList, List.find?_append, firstFault?_eq_find? t, firstFaultList?_eq_find? ts]
    split
    · rfl
    · rename_i hnone
      rw [hasFault_eq_any, Bool.not_eq_true, List.any_eq_false] at hnone
      rw [List.find?_eq_none.mpr hnone, Option.none_or]
end

/-- A part of a tree that is a fault, with none before it. -/
def IsFirstFault (t f : Tree) : Prop :=
  f.isFault = true ∧ ∃ before after, t.preorder = before ++ f :: after ∧ ∀ u ∈ before, u.isFault = false

theorem hasFault_iff {t : Tree} : t.hasFault = true ↔ ∃ f ∈ t.preorder, f.isFault = true := by
  rw [hasFault_eq_any, List.any_eq_true]

theorem firstFault?_eq_some_iff {t f : Tree} : t.firstFault? = some f ↔ t.IsFirstFault f := by
  rw [firstFault?_eq_find?, List.find?_eq_some_iff_append, IsFirstFault]
  simp

end Syntax.Tree

open Syntax (Tree)
variable {source : List Char} {t f : Tree}

/-- The account of a text tells of a fault: it says what the fault is, and gives the line and the column in
which the fault begins, counted from 1. What stands before the fault is `passed`. -/
structure ParseError.TellsOf (e : ParseError) (source : List Char) (f : Tree) : Prop where
  explained : ∀ message, e.cause ≠ .other message
  place : ∀ passed rest, source = passed ++ rest → Text.size passed = f.span.start →
    e.line = passed.count '\n' + 1 ∧ e.column = Text.size (passed.rtakeWhile (· != '\n')) + 1

private theorem faultCause_ne_other (source : List Char) (f : Tree) (message : String) :
    faultCause source f ≠ .other message := by
  unfold faultCause
  split
  · nofun
  · split <;> nofun

private theorem parseError_tellsOf (h : t.firstFault? = some f) :
    (parseError source t).TellsOf source f := by
  rw [parseError, h]
  refine ⟨faultCause_ne_other source f, ?_⟩
  rintro passed rest rfl hstart
  have hplace : linePosition (passed ++ rest) f.span.start =
      (passed.count '\n' + 1, Text.size (passed.rtakeWhile (· != '\n')) + 1) := by
    rw [linePosition, ← hstart, Text.upTo_append]
    rfl
  exact ⟨congrArg Prod.fst hplace, congrArg Prod.snd hplace⟩

/-- Any tree with a fault has a first one. It is the one that the search finds and that the account tells of;
and a text with this tree fails with that account, and has a place where the fault begins. -/
theorem parse_tells_of_first_fault (text : String) (t : Tree) (h : t.hasFault = true) :
    (∀ u : Tree, u.hasFault = true ↔ ∃ f ∈ u.preorder, f.isFault = true) ∧
    ∃ f, t.IsFirstFault f ∧ t.firstFault? = some f ∧ (parseError text.toList t).TellsOf text.toList f ∧
      (t = Tree.ofText text.toList → Text.IsBoundary text.toList f.span.start ∧
        parse text = .error (parseError text.toList t) ∧
        ∀ query, parseWith query text = .error (.parse (parseError text.toList t))) := by
  obtain ⟨f, hf⟩ : ∃ f, t.firstFault? = some f := by
    rw [← Option.isSome_iff_exists, Tree.firstFault?_eq_find?, List.find?_isSome]
    exact Tree.hasFault_iff.mp h
  have hfirst := Tree.firstFault?_eq_some_iff.mp hf
  refine ⟨fun u => Tree.hasFault_iff, f, hfirst, hf, parseError_tellsOf hf, ?_⟩
  rintro rfl
  obtain ⟨-, before, after, hparts, -⟩ := hfirst
  refine ⟨(Tree.ofText_within text.toList).start (by simp [hparts]), ?_, fun query => ?_⟩
  · simp only [parse, h, if_true]
  · simp only [parseWith, h, if_true]
    rfl

/-- The second and the third row of this text are at fault. -/
def twiceUnclosed : String := "a: b\nü: [c\nd: [e\nf: g\n"

theorem parse_tells_of_first_fault_twiceUnclosed : (Tree.ofText twiceUnclosed.toList).hasFault = true ∧
    ∃ f, (Tree.ofText twiceUnclosed.toList).IsFirstFault f ∧ f.span = ⟨9, 11⟩ ∧
      ∃ e, parse twiceUnclosed = .error e ∧ e.TellsOf twiceUnclosed.toList f ∧ e.line = 2 ∧ e.column = 5 := by
  have h : (Tree.ofText twiceUnclosed.toList).hasFault = true := by decide +kernel
  have hspan : (Tree.ofText twiceUnclosed.toList).firstFault?.map Tree.span = some ⟨9, 11⟩ := by decide +kernel
  obtain ⟨-, f, hfirst, hf, htells, hparse⟩ := parse_tells_of_first_fault twiceUnclosed _ h
  rw [hf] at hspan
  have hspan : f.span = ⟨9, 11⟩ := Option.some.inj hspan
  have hplace := htells.place "a: b\nü: ".toList "[c\nd: [e\nf: g\n".toList (by decide) (by rw [hspan]; decide)
  exact ⟨h, f, hfirst, hspan, _, (hparse rfl).2.1, htells, hplace.1, hplace.2⟩

end YamlOutline
