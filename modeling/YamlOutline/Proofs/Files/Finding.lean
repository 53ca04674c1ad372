import YamlOutline.Proofs.Files.Language
import YamlOutline.Proofs.Files.Paths

/-! The files that paths stand for. A file stands for itself, and a folder for the files with an extension from
the list that are below it and not hidden; what is found more than once stays where it was found first. -/

namespace YamlOutline.Files
variable {disk : Disk} {item : Item} {extensions : List String} {es : List Entry} {folder name path : String}

/-! ### Below a folder -/

/-- The names lead from an item through folders to a file. -/
inductive Item.Leads : Item → List String → Content → Prop
  | file (content : Content) : Leads (.file content) [] content
  | entry {es : List Entry} {name : String} {item : Item} {names : List String} {content : Content}
      (mem : .mk name item ∈ es) (rest : Leads item names content) :
      Leads (.folder es) (name :: names) content

/-- There is a file at the path, inside an item that is at `folder`, and no name on the way from there is
hidden, its own included. -/
def Item.Offers (item : Item) (folder path : String) : Prop :=
  ∃ names content, item.Leads names content ∧ (∀ name ∈ names, isHidden name = false) ∧
    names.foldl Path.join folder = path

private theorem offers_file {content : Content} :
    (Item.file content).Offers folder path ↔ path = folder := by
  constructor
  · rintro ⟨_, _, ⟨⟩, -, rfl⟩
    rfl
  · rintro rfl
    exact ⟨[], content, .file content, nofun, rfl⟩

private theorem offers_nil : ¬ (Item.folder []).Offers folder path := by
  rintro ⟨_, _, _ | ⟨mem, -⟩, -, -⟩
  cases mem

private theorem offers_cons : (Item.folder (.mk name item :: es)).Offers folder path ↔
    (isHidden name = false ∧ item.Offers (Path.join folder name) path) ∨
      (Item.folder es).Offers folder path := by
  constructor
  · rintro ⟨_, content, _ | ⟨mem, rest⟩, hidden, hpath⟩
    obtain ⟨hname, hnames⟩ := List.forall_mem_cons.mp hidden
    rcases List.mem_cons.mp mem with he | mem
    · cases he
      exact .inl ⟨hname, _, content, rest, hnames, hpath⟩
    · exact .inr ⟨_, content, .entry mem rest, hidden, hpath⟩
  · rintro (⟨hname, names, content, rest, hnames, hpath⟩ | ⟨_, content, _ | ⟨mem, rest⟩, hidden, hpath⟩)
    · exact ⟨name :: names, content, .entry (List.mem_cons_self ..) rest,
        List.forall_mem_cons.mpr ⟨hname, hnames⟩, hpath⟩
    · exact ⟨_, content, .entry (List.mem_cons_of_mem _ mem) rest, hidden, hpath⟩

private theorem mem_seenEntries_iff (folder : String) : (es : List Entry) →
    (path ∈ seenEntries folder es ↔ (Item.folder es).Offers folder path)
  | [] => by simp [seenEntries, offers_nil]
  | .mk name (.file content) :: es => by
    rw [offers_cons, offers_file, ← mem_seenEntries_iff folder es, seenEntries]
    cases isHidden name <;> simp
  | .mk name (.folder inner) :: es => by
    rw [offers_cons, ← mem_seenEntries_iff (Path.join folder name) inner, ← mem_seenEntries_iff folder es,
      seenEntries]
    cases isHidden name <;> simp

/-- The files that one path stands for: itself if it leads to a file, and sorted ones if it leads to a folder. -/
inductive Contributes (disk : Disk) (extensions : List String) (path : String) : List String → Prop
  | file {content : Content} (leads : disk.resolve path = .ok (.file content)) :
      Contributes disk extensions path [path]
  | folder {es : List Entry} {part : List String} (leads : disk.resolve path = .ok (.folder es))
      (sorted : part.Pairwise (Path.le · ·))
      (mem : ∀ q, q ∈ part ↔ (Item.folder es).Offers path q ∧
        ∃ x, Path.extension? q = some x ∧ Path.Listed extensions x) :
      Contributes disk extensions path part

private theorem expand_contributes {part : List String}
    (h : expand disk extensions path = .ok part) :
    Contributes disk extensions path part := by
  rw [expand] at h
  split at h
  · rename_i es hleads
    obtain rfl := Except.ok.inj h
    refine .folder hleads (Path.sorted_mergeSort _) fun q => ?_
    rw [List.mem_mergeSort, mem_below_iff, seen, mem_seenEntries_iff, Path.hasExtension_iff]
  · rename_i content hleads
    obtain rfl := Except.ok.inj h
    exact .file hleads
  · cases h

/-- How a folder whose files are in order is taken. -/
theorem expand_of_below {part : List String} (h : disk.resolve path = .ok (.folder es))
    (hbelow : belowEntries extensions path es = part) (hsorted : part.Pairwise (Path.le · ·)) :
    expand disk extensions path = .ok part := by
  have hexpand : expand disk extensions path =
      .ok ((below extensions path (.folder es)).mergeSort Path.le) := by rw [expand, h]
  rw [hexpand, below, hbelow, List.mergeSort_of_pairwise hsorted]

private theorem Contributes.resolves {part : List String}
    (h : Contributes disk extensions path part) :
    ∃ item, disk.resolve path = .ok item := by
  obtain leads | ⟨leads, -, -⟩ := h
  · exact ⟨_, leads⟩
  · exact ⟨_, leads⟩

private theorem of_expand_eq_error {e : NotFound} (h : expand disk extensions path = .error e) :
    e.path = path ∧ ∀ item, disk.resolve path ≠ .ok item := by
  rw [expand] at h
  split at h <;> cases h
  rename_i failure hfails
  refine ⟨rfl, fun item hleads => ?_⟩
  cases hfails.symm.trans hleads

/-! ### Without repetition -/

/-- The second list has the paths of the first in their order, but those that an earlier one repeats. -/
inductive FirstOccurrences : List String → List String → Prop
  | nil : FirstOccurrences [] []
  | new {all found : List String} {p : String} (before : FirstOccurrences all found)
      (differs : ∀ q ∈ all, Path.same q p = false) : FirstOccurrences (all ++ [p]) (found ++ [p])
  | again {all found : List String} {p : String} (before : FirstOccurrences all found)
      (repeats : ∃ q ∈ all, Path.same q p = true) : FirstOccurrences (all ++ [p]) found

theorem same_iff {p q : String} : Path.same p q = true ↔ Path.parts p = Path.parts q :=
  beq_iff_eq

private theorem distinct_concat (ps : List String) (p : String) :
    distinct (ps ++ [p]) = if ps.any (Path.same · p) then distinct ps else distinct ps ++ [p] := by
  induction ps with
  | nil => rfl
  | cons a ps ih =>
    rw [List.cons_append, distinct, ih, distinct, List.any_cons]
    cases ps.any (Path.same · p) with
    | true => simp
    | false => cases hp : Path.same a p <;> simp [List.filter_append, hp]

private theorem firstOccurrences_distinct (ps : List String) :
    FirstOccurrences ps (distinct ps) := by
  induction ps using List.reverseRecOn with
  | nil => exact .nil
  | append_singleton ps p ih =>
    rw [distinct_concat]
    split
    · rename_i h
      exact .again ih (List.any_eq_true.mp h)
    · rename_i h
      exact .new ih (by simpa using h)

namespace FirstOccurrences
variable {all found : List String} {p : String}

theorem subset (h : FirstOccurrences all found) : found ⊆ all := by
  induction h with
  | nil => exact List.Subset.refl _
  | new before differs ih =>
    exact List.append_subset.mpr ⟨List.subset_append_of_subset_left _ ih, List.subset_append_right ..⟩
  | again before repeats ih => exact List.subset_append_of_subset_left _ ih

/-- Nothing is lost. -/
theorem exists_same (h : FirstOccurrences all found) (hp : p ∈ all) :
    ∃ q ∈ found, Path.same q p = true := by
  induction h generalizing p with
  | nil => cases hp
  | @new all found p' before differs ih =>
    rcases List.mem_append.mp hp with hp | hp
    · obtain ⟨q, hq, hsame⟩ := ih hp
      exact ⟨q, List.mem_append_left _ hq, hsame⟩
    · obtain rfl := List.mem_singleton.mp hp
      exact ⟨p, by simp, same_iff.mpr rfl⟩
  | again before repeats ih =>
    rcases List.mem_append.mp hp with hp | hp
    · exact ih hp
    · obtain rfl := List.mem_singleton.mp hp
      obtain ⟨q, hq, hsame⟩ := repeats
      obtain ⟨q', hq', hsame'⟩ := ih hq
      exact ⟨q', hq', same_iff.mpr ((same_iff.mp hsame').trans (same_iff.mp hsame))⟩

theorem pairwise (h : FirstOccurrences all found) : found.Pairwise (Path.same · · = false) := by
  induction h with
  | nil => exact .nil
  | new before differs ih =>
    refine List.pairwise_append.mpr ⟨ih, List.pairwise_singleton .., fun q hq p hp => ?_⟩
    obtain rfl := List.mem_singleton.mp hp
    exact differs q (before.subset hq)
  | again before repeats ih => exact ih

end FirstOccurrences

/-! ### All paths -/

section
variable {ε α β : Type} {f : α → Except ε β} {xs : List α}

theorem mapM_eq_ok_iff {ys : List β} : xs.mapM f = .ok ys ↔ List.Forall₂ (f · = .ok ·) xs ys := by
  induction xs generalizing ys with
  | nil => cases ys <;> simp [pure, Except.pure]
  | cons x xs ih =>
    rw [List.mapM_cons]
    cases hx : f x with
    | error e => cases ys <;> simp [hx, bind, Except.bind]
    | ok y =>
      cases hxs : xs.mapM f with
      | error e => cases ys <;> simp [hx, hxs, ← ih, bind, Except.bind]
      | ok => cases ys <;> simp [hx, hxs, ← ih, bind, Except.bind, pure, Except.pure]

/-- The first error ends it. -/
private theorem exists_of_mapM_eq_error {e : ε} (h : xs.mapM f = .error e) :
    ∃ before x after, xs = before ++ x :: after ∧ (∀ y ∈ before, ∃ z, f y = .ok z) ∧ f x = .error e := by
  induction xs with
  | nil => cases h
  | cons x xs ih =>
    rw [List.mapM_cons] at h
    cases hx : f x with
    | error e' =>
      obtain rfl : e' = e := by simpa [hx, bind, Except.bind] using h
      exact ⟨[], x, xs, rfl, nofun, hx⟩
    | ok y =>
      cases hxs : xs.mapM f with
      | ok ys => simp [hx, hxs, bind, Except.bind, pure, Except.pure] at h
      | error e' =>
        obtain rfl : e' = e := by simpa [hx, hxs, bind, Except.bind] using h
        obtain ⟨before, x', after, rfl, hbefore, hx'⟩ := ih hxs
        exact ⟨x :: before, x', after, rfl, List.forall_mem_cons.mpr ⟨⟨y, hx⟩, hbefore⟩, hx'⟩

end

/-- The paths that are looked at: those that are given, or else the folder where the program runs. -/
def given (paths : List String) : List String :=
  if paths.isEmpty then ["."] else paths

/-- The folder where the program runs is always there. -/
private theorem exists_resolve_here (disk : Disk) : ∃ item, disk.resolve "." = .ok item := by
  obtain ⟨es, hes⟩ := Item.isFolderAt_iff.mp disk.here_isFolder
  have hplace : disk.place "." = .ok disk.here := by
    refine Disk.place_eq_ok.mpr ⟨[['.']], rfl, ?_, by rw [hes]; rfl⟩
    exact Disk.follow_cons_eq_ok.mpr ⟨disk.here_isFolder, _, .stay (.inr rfl), rfl⟩
  refine ⟨.folder es, ?_⟩
  rw [Disk.resolve, hplace]
  simp only [bind, Except.bind, hes]
  rfl

theorem find_of_mapM {paths : List String} {parts : List (List String)}
    (h : (given paths).mapM (expand disk extensions) = .ok parts) :
    find disk extensions paths = .ok (distinct parts.flatten) :=
  congrArg (·.bind fun found => .ok (distinct found.flatten)) h

private theorem find_of_mapM_eq_error {paths : List String} {e : NotFound}
    (h : (given paths).mapM (expand disk extensions) = .error e) : find disk extensions paths = .error e :=
  congrArg (·.bind fun found => .ok (distinct found.flatten)) h

/-- What is found are the first occurrences among what the paths contribute. -/
theorem exists_of_find_eq_ok {paths found : List String} (h : find disk extensions paths = .ok found) :
    ∃ parts, List.Forall₂ (Contributes disk extensions) (given paths) parts ∧
      FirstOccurrences parts.flatten found := by
  cases hm : (given paths).mapM (expand disk extensions) with
  | error e =>
    rw [find_of_mapM_eq_error hm] at h
    cases h
  | ok parts =>
    rw [find_of_mapM hm] at h
    obtain rfl := Except.ok.inj h
    exact ⟨parts, (mapM_eq_ok_iff.mp hm).imp fun _ _ => expand_contributes, firstOccurrences_distinct _⟩

private theorem forall_resolve_of_find_eq_ok {paths found : List String}
    (h : find disk extensions paths = .ok found) :
    ∀ path ∈ paths, ∃ item, disk.resolve path = .ok item := by
  intro path hp
  have hgiven : path ∈ given paths := by
    rw [given, if_neg (by simpa using List.ne_nil_of_mem hp)]
    exact hp
  obtain ⟨parts, hparts, -⟩ := exists_of_find_eq_ok h
  have hall := hparts.imp fun _ _ hpart => And.intro hpart.resolves hpart
  exact ((List.forall₂_and_left _ _).mp hall).1 path hgiven

/-- The first path that leads nowhere ends the search. -/
private theorem exists_of_find_eq_error {paths : List String} {e : NotFound}
    (h : find disk extensions paths = .error e) :
    ∃ before after, paths = before ++ e.path :: after ∧
      (∀ path ∈ before, ∃ item, disk.resolve path = .ok item) ∧
      ∀ item, disk.resolve e.path ≠ .ok item := by
  cases hm : (given paths).mapM (expand disk extensions) with
  | ok parts =>
    rw [find_of_mapM hm] at h
    cases h
  | error e' =>
    rw [find_of_mapM_eq_error hm] at h
    obtain rfl := Except.error.inj h
    obtain ⟨before, path, after, hsplit, hbefore, hpath⟩ := exists_of_mapM_eq_error hm
    obtain ⟨rfl, hfails⟩ := of_expand_eq_error hpath
    refine ⟨before, after, ?_, fun path hp => ?_, hfails⟩
    · rw [given] at hsplit
      split at hsplit
      · -- Without paths it is the folder where the program runs that is looked at.
        have hhere : e'.path ∈ ["."] := hsplit ▸ List.mem_append_right _ (List.mem_cons_self ..)
        rw [List.mem_singleton.mp hhere] at hfails
        obtain ⟨item, hitem⟩ := exists_resolve_here disk
        exact absurd hitem (hfails item)
      · exact hsplit
    · obtain ⟨part, hpart⟩ := hbefore path hp
      exact (expand_contributes hpart).resolves

/-- For any disk, any extensions and any paths, relative or from the root. Finding fails if one of
the paths leads to neither a file nor a folder, and only then, and it names the first such path.
Otherwise it takes what the paths stand for, one after the other: a file itself, and of a folder, in
order, those files below it that have an extension from the list and no hidden name on the way. Of
these it leaves out what repeats an earlier one, and nothing else. -/
theorem find_takes_wanted_files (disk : Disk) (extensions paths : List String) :
    ((∃ e, find disk extensions paths = .error e) ↔
      ∃ path ∈ paths, ∀ item, disk.resolve path ≠ .ok item) ∧
    (∀ e, find disk extensions paths = .error e → ∃ before after, paths = before ++ e.path :: after ∧
      (∀ path ∈ before, ∃ item, disk.resolve path = .ok item) ∧
      ∀ item, disk.resolve e.path ≠ .ok item) ∧
    ∀ found, find disk extensions paths = .ok found →
      ∃ parts, List.Forall₂ (Contributes disk extensions) (given paths) parts ∧
        FirstOccurrences parts.flatten found ∧ found.Pairwise (Path.same · · = false) := by
  refine ⟨⟨?_, ?_⟩, fun e => exists_of_find_eq_error, fun found h => ?_⟩
  · rintro ⟨e, h⟩
    obtain ⟨before, after, rfl, -, hfails⟩ := exists_of_find_eq_error h
    exact ⟨e.path, by simp, hfails⟩
  · rintro ⟨path, hp, hfails⟩
    cases h : find disk extensions paths with
    | error e => exact ⟨e, rfl⟩
    | ok found =>
      obtain ⟨item, hleads⟩ := forall_resolve_of_find_eq_ok h path hp
      exact absurd hleads (hfails item)
  · obtain ⟨parts, hparts, hfound⟩ := exists_of_find_eq_ok h
    exact ⟨parts, hparts, hfound, hfound.pairwise⟩

/-- Files that a folder contributes, one of them below a folder that is named like a file, and others
that it does not: a hidden one, one in a hidden folder and one without an extension from the list. -/
def mixedEntries : List Entry :=
  [.mk "b.yaml" (.file (.text "")), .mk ".git" (.folder [.mk "c.yaml" (.file (.text ""))]),
    .mk "x.yaml" (.folder [.mk "a.YML" (.file .binary)]), .mk ".e.yaml" (.file (.text "")),
    .mk "notes.txt" (.file (.text ""))]

/-- The folder is given by its path from the root. A file is taken whatever its extension, and once
more where it is written in another way. What is there where the program runs need not be there at
the root. -/
theorem folder_contributes_nested_files :
    ∃ disk : Disk, disk = .ofFolder ["w"] [.mk "d" (.folder mixedEntries)] ∧
      find disk ["yaml", "yml"] ["/w/d", "d/notes.txt", "../w/d/b.yaml"] =
        .ok ["/w/d/b.yaml", "/w/d/x.yaml/a.YML", "d/notes.txt", "../w/d/b.yaml"] ∧
      (∃ parts, List.Forall₂ (Contributes disk ["yaml", "yml"])
          ["/w/d", "d/notes.txt", "../w/d/b.yaml"] parts ∧
        FirstOccurrences parts.flatten
          ["/w/d/b.yaml", "/w/d/x.yaml/a.YML", "d/notes.txt", "../w/d/b.yaml"]) ∧
      ∃ e, find disk ["yaml", "yml"] ["d", "/d"] = .error e := by
  let disk : Disk := .ofFolder ["w"] [.mk "d" (.folder mixedEntries)]
  have hbelow : belowEntries ["yaml", "yml"] "/w/d" mixedEntries =
      ["/w/d/b.yaml", "/w/d/x.yaml/a.YML"] := by
    simp only [mixedEntries, belowEntries]
    decide +kernel
  have hfolder : expand disk ["yaml", "yml"] "/w/d" = .ok ["/w/d/b.yaml", "/w/d/x.yaml/a.YML"] :=
    expand_of_below rfl hbelow (List.pairwise_pair.mpr (by decide +kernel))
  have hnotes : expand disk ["yaml", "yml"] "d/notes.txt" = .ok ["d/notes.txt"] := rfl
  have hfile : expand disk ["yaml", "yml"] "../w/d/b.yaml" = .ok ["../w/d/b.yaml"] := rfl
  have hfind : find disk ["yaml", "yml"] ["/w/d", "d/notes.txt", "../w/d/b.yaml"] =
      .ok ["/w/d/b.yaml", "/w/d/x.yaml/a.YML", "d/notes.txt", "../w/d/b.yaml"] := by
    have hparts : (given ["/w/d", "d/notes.txt", "../w/d/b.yaml"]).mapM (expand disk ["yaml", "yml"]) =
        .ok [["/w/d/b.yaml", "/w/d/x.yaml/a.YML"], ["d/notes.txt"], ["../w/d/b.yaml"]] :=
      mapM_eq_ok_iff.mpr (.cons hfolder (.cons hnotes (.cons hfile .nil)))
    rw [find_of_mapM hparts]
    decide +kernel
  have hnowhere : disk.resolve "/d" = .error .missing := rfl
  obtain ⟨-, -, hfound⟩ :=
    find_takes_wanted_files disk ["yaml", "yml"] ["/w/d", "d/notes.txt", "../w/d/b.yaml"]
  obtain ⟨hfails, -, -⟩ := find_takes_wanted_files disk ["yaml", "yml"] ["d", "/d"]
  obtain ⟨parts, hparts, hfirst, -⟩ := hfound _ hfind
  refine ⟨disk, rfl, hfind, ⟨parts, hparts, hfirst⟩, hfails.mpr ⟨"/d", by simp, fun item hitem => ?_⟩⟩
  rw [hnowhere] at hitem
  cases hitem

end YamlOutline.Files
