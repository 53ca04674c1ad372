import YamlOutline.Proofs.Files.Writing

/-! Paths as they are written. They are sorted by a total order of their parts. A name that is added to a path is
one more part. As there are no links, the place that a path leads to can be told from its parts alone. -/

namespace YamlOutline.Files

namespace Path
open Text (pieces)
variable {a b c : Part} {as bs cs : List Part} {path folder name p q : String} {names : List String}

/-! ### The order -/

private theorem Part.name_le_iff {x y : String} : (Part.name x).le (.name y) = true ↔ x ≤ y := by
  simp only [Part.le, Bool.or_eq_true, decide_eq_true_eq, beq_iff_eq]
  exact Std.le_iff_lt_or_eq.symm

private theorem Part.le_total (a b : Part) : a.le b = true ∨ b.le a = true := by
  cases a <;> cases b
  case name.name x y => simpa only [Part.name_le_iff] using String.le_total x y
  all_goals simp [Part.le, Part.rank]

private theorem Part.le_trans (h : a.le b = true) (h' : b.le c = true) : a.le c = true := by
  cases a <;> cases b <;> cases c
  case name.name.name x y z =>
    rw [Part.name_le_iff] at h h' ⊢
    exact String.le_trans h h'
  all_goals simp_all [Part.le, Part.rank]

private theorem Part.le_antisymm (h : a.le b = true) (h' : b.le a = true) : a = b := by
  cases a <;> cases b
  case name.name x y =>
    rw [Part.name_le_iff] at h h'
    rw [String.le_antisymm h h']
  all_goals simp_all [Part.le, Part.rank]

private theorem partsLe_total (as bs : List Part) :
    partsLe as bs = true ∨ partsLe bs as = true := by
  induction as generalizing bs with
  | nil => exact .inl rfl
  | cons a as ih =>
    cases bs with
    | nil => exact .inr rfl
    | cons b bs =>
      by_cases hab : a = b
      · simpa [partsLe, hab] using ih bs
      · simpa [partsLe, hab, Ne.symm hab] using a.le_total b

private theorem partsLe_trans (h : partsLe as bs = true) (h' : partsLe bs cs = true) :
    partsLe as cs = true := by
  induction as generalizing bs cs with
  | nil => rfl
  | cons a as ih =>
    obtain _ | ⟨b, bs⟩ := bs
    · cases h
    obtain _ | ⟨c, cs⟩ := cs
    · cases h'
    by_cases hab : a = b
    · subst hab
      by_cases hac : a = c
      · simp only [partsLe, hac, if_true] at h h' ⊢
        exact ih h h'
      · simpa [partsLe, hac] using h'
    · have hle : a.le b = true := by simpa [partsLe, hab] using h
      by_cases hbc : b = c
      · subst hbc
        simpa [partsLe, hab] using hle
      · have hle' : b.le c = true := by simpa [partsLe, hbc] using h'
        have hac : a ≠ c := fun he => hab (Part.le_antisymm hle (he ▸ hle'))
        simpa [partsLe, hac] using Part.le_trans hle hle'

/-- Sorting paths puts them in order. -/
theorem sorted_mergeSort (paths : List String) : (paths.mergeSort le).Pairwise (le · ·) :=
  List.pairwise_mergeSort (fun p q r => @partsLe_trans (parts p) (parts q) (parts r))
    (fun p q => Bool.or_eq_true_iff.mpr (partsLe_total (parts p) (parts q))) paths

/-! ### A name in a folder -/

/-- A name as a folder may have it, that does not stand for a folder on the way. -/
structure IsProper (name : String) : Prop where
  nonempty : name.toList ≠ []
  unslashed : '/' ∉ name.toList
  visible : name.toList.head? ≠ some '.'

/-- The part before all others, if the path has one, told from its pieces. -/
def lead (ps : List (List Char)) : List Part :=
  if ps.head? = some ['.'] then [.here]
  else if ps.head? = some [] ∧ ps.tail ≠ [] then [.root]
  else []

private theorem parts_eq (path : String) :
    parts path = lead (pieces '/' path.toList) ++ (pieces '/' path.toList).filterMap ofPiece? := by
  simp only [parts]
  obtain _ | ⟨p, ps⟩ := pieces '/' path.toList
  · rfl
  · by_cases hroot : p = []
    · cases ps <;> simp [lead, hroot]
    · by_cases hhere : p = ['.']
      · simp [lead, hhere]
      · split <;> simp_all [lead]

private theorem ofPiece?_proper (h : IsProper name) : ofPiece? name.toList = some (.name name) := by
  have hdot : name.toList ≠ ['.'] := fun he => h.visible (by rw [he]; rfl)
  have hup : name.toList ≠ ['.', '.'] := fun he => h.visible (by rw [he]; rfl)
  simp [ofPiece?, h.nonempty, hdot, hup]

/-- What follows the first piece does not change how a path begins. -/
private theorem lead_concat {ps : List (List Char)} (hn : ps ≠ []) (he : ps ≠ [[]])
    (x : List Char) :
    lead (ps ++ [x]) = lead ps := by
  obtain ⟨p, ps, rfl⟩ := List.exists_cons_of_ne_nil hn
  cases ps with
  | nil =>
    have hp : p ≠ [] := fun h => he (by rw [h])
    simp [lead, hp]
  | cons q ps => simp [lead]

private theorem lead_concat_congr {ps : List (List Char)} (hn : ps ≠ []) (x y : List Char) :
    lead (ps ++ [x]) = lead (ps ++ [y]) := by
  obtain ⟨p, ps, rfl⟩ := List.exists_cons_of_ne_nil hn
  simp [lead]

private theorem parts_join (hf : folder ≠ "") (h : IsProper name) :
    parts (join folder name) = parts folder ++ [.name name] := by
  have hlast : [name.toList].filterMap ofPiece? = [Part.name name] := by simp [ofPiece?_proper h]
  rw [parts_eq, parts_eq, join]
  split
  · -- The path ends in a slash, and the name stands for the empty piece behind it.
    rename_i hslash
    obtain ⟨cs, hcs⟩ := List.getLast?_eq_some_iff.mp hslash
    have hpieces : pieces '/' folder.toList = pieces '/' cs ++ [[]] := by
      rw [hcs, Text.pieces_append_separator, pieces]
    have hjoined : pieces '/' (folder ++ name).toList = pieces '/' cs ++ [name.toList] := by
      rw [String.toList_append, hcs, List.append_assoc, List.singleton_append, Text.pieces_append_separator,
        Text.pieces_of_notMem h.unslashed]
    rw [hpieces, hjoined, lead_concat_congr (Text.pieces_ne_nil '/' cs) name.toList [], List.filterMap_append,
      List.filterMap_append, hlast, List.append_assoc]
    simp [ofPiece?]
  · have hjoined : pieces '/' (folder ++ "/" ++ name).toList = pieces '/' folder.toList ++ [name.toList] := by
      rw [String.toList_append, String.toList_append, List.append_assoc, ← Text.pieces_of_notMem h.unslashed]
      exact Text.pieces_append_separator ..
    have hne : pieces '/' folder.toList ≠ [[]] := by simpa [Text.pieces_eq_nil_iff] using hf
    rw [hjoined, lead_concat (Text.pieces_ne_nil '/' _) hne, List.filterMap_append, hlast, List.append_assoc]

private theorem join_ne_empty (h : IsProper name) : join folder name ≠ "" := by
  intro he
  have hn : name = "" := by
    rw [join] at he
    split at he <;> simp_all
  exact h.nonempty (by rw [hn]; rfl)

/-- Names in folders inside each other are as many more parts. -/
theorem parts_foldl_join (hf : folder ≠ "") (h : ∀ name ∈ names, IsProper name) :
    parts (names.foldl join folder) = parts folder ++ names.map .name := by
  induction names generalizing folder with
  | nil => simp
  | cons name names ih =>
    obtain ⟨hname, hnames⟩ := List.forall_mem_cons.mp h
    rw [List.foldl_cons, ih (join_ne_empty hname) hnames, parts_join hf hname, List.append_assoc]
    rfl

/-! ### The place of a path -/

/-- Where a part leads from a place: into a folder or out of it. -/
def Part.follow (place : List String) : Part → List String
  | .root => []
  | .here => place
  | .up => place.dropLast
  | .name n => place ++ [n]

theorem foldl_follow_names (place names : List String) :
    (names.map Part.name).foldl Part.follow place = place ++ names := by
  induction names generalizing place with
  | nil => simp
  | cons name names ih => simp [Part.follow, ih]

/-- The part before all others is the root where a path begins with a slash. -/
private theorem foldl_lead (place : List String) (cs : List Char) :
    (lead (pieces '/' cs)).foldl Part.follow place =
    if cs.head? = some '/' then [] else place := by
  obtain _ | ⟨c, cs⟩ := cs
  · rfl
  by_cases hc : c = '/'
  · simp [hc, pieces, lead, Part.follow, Text.pieces_ne_nil]
  · obtain ⟨p, ps, hp⟩ := List.exists_cons_of_ne_nil (Text.pieces_ne_nil '/' cs)
    have hpieces : pieces '/' (c :: cs) = (c :: p) :: ps := by rw [pieces, if_neg hc, hp]
    have hroot : ¬ (((c :: p) :: ps).head? = some [] ∧ ((c :: p) :: ps).tail ≠ []) := by simp
    have hslash : (c :: cs).head? ≠ some '/' := by simpa using hc
    rw [hpieces, lead, if_neg hroot, if_neg hslash]
    split <;> rfl

private theorem foldl_follow_of_goes {place next : List String} {p : List Char}
    (h : Disk.Goes place p next) :
    ([p].filterMap ofPiece?).foldl Part.follow place = next := by
  cases h with
  | stay here => rcases here with rfl | rfl <;> rfl
  | up => rfl
  | into nonempty notHere notUp short =>
    simp [ofPiece?, nonempty, notHere, notUp, Part.follow]

private theorem foldl_follow_of_follow {root : Item} {place : List String} {ps : List (List Char)}
    (h : Disk.follow root place ps = .ok names) : (ps.filterMap ofPiece?).foldl Part.follow place = names := by
  induction ps generalizing place with
  | nil => exact Except.ok.inj h
  | cons p ps ih =>
    obtain ⟨-, next, hgoes, hnext⟩ := Disk.follow_cons_eq_ok.mp h
    rw [← List.singleton_append, List.filterMap_append, List.foldl_append, foldl_follow_of_goes hgoes]
    exact ih hnext

end Path

namespace Disk
open Files.Path (IsProper Part parts)
variable {disk : Disk} {folder path : String} {names : List String}

/-- The place that a path names, if there is anything at all where it leads. -/
def target (disk : Disk) (path : String) : List String :=
  (parts path).foldl Part.follow disk.here

private theorem target_eq (disk : Disk) (path : String) : disk.target path =
    ((Text.pieces '/' path.toList).filterMap Path.ofPiece?).foldl Part.follow (disk.start path) := by
  rw [target, Path.parts_eq, List.foldl_append, Path.foldl_lead, start]

theorem target_foldl_join (hf : folder ≠ "") (h : ∀ name ∈ names, IsProper name) :
    disk.target (names.foldl Path.join folder) = disk.target folder ++ names := by
  rw [target, Path.parts_foldl_join hf h, List.foldl_append, Path.foldl_follow_names, target]

/-- Where a path leads to something, that is at the place that the path names. -/
theorem target_eq_of_place (h : disk.place path = .ok names) : disk.target path = names := by
  obtain ⟨ps, hps, hfollow, -⟩ := place_eq_ok.mp h
  obtain ⟨-, rfl⟩ := of_piecesOf hps
  rw [target_eq]
  exact Path.foldl_follow_of_follow hfollow

end Disk

end YamlOutline.Files
