import YamlOutline.Proofs.Files.Finding

/-! Paths that stand for the same files. What is found twice is left out only where it is written alike; whether
a file can be found under two paths depends on how the given paths are written. -/

namespace YamlOutline.Files
open Files.Path (IsProper Part parts)
variable {disk : Disk} {root item : Item} {extensions names paths found : List String} {path q : String}

/-! ### Names in a tree -/

/-- The names on the way to a file are names as a file system takes them. -/
def Item.Named (root : Item) : Prop :=
  ∀ names content, root.Leads names content → ∀ name ∈ names, name ≠ "" ∧ '/' ∉ name.toList

private theorem Item.Named.file {content : Content} : (Item.file content).Named := by
  rintro _ _ ⟨⟩
  nofun

private theorem Item.Named.nil : (Item.folder []).Named := by
  rintro _ _ (_ | ⟨mem, -⟩)
  cases mem

private theorem Item.Named.cons {name : String} {es : List Entry}
    (hname : name ≠ "" ∧ '/' ∉ name.toList) (hitem : item.Named)
    (hes : (Item.folder es).Named) : (Item.folder (.mk name item :: es)).Named := by
  rintro _ content (_ | ⟨mem, rest⟩)
  rcases List.mem_cons.mp mem with he | mem
  · cases he
    exact List.forall_mem_cons.mpr ⟨hname, hitem _ content rest⟩
  · exact hes _ content (.entry mem rest)

private theorem exists_entry_of_child? {name : String} (h : root.child? name = some item) :
    ∃ es, root = .folder es ∧ .mk name item ∈ es := by
  cases root with
  | file content => cases h
  | folder es =>
    obtain ⟨⟨name', item'⟩, hfind, rfl⟩ := Option.map_eq_some_iff.mp h
    obtain rfl : name' = name := by simpa [Entry.name] using List.find?_some hfind
    exact ⟨es, rfl, List.mem_of_find?_eq_some hfind⟩

/-- The way to a place and the way on from there are one way. -/
private theorem Item.Leads.of_get? {more : List String} {content : Content}
    (h : root.get? names = some item)
    (hmore : item.Leads more content) : root.Leads (names ++ more) content := by
  induction names generalizing root with
  | nil =>
    obtain rfl : root = item := Option.some.inj h
    exact hmore
  | cons name names ih =>
    obtain ⟨child, hchild, hrest⟩ := Option.bind_eq_some_iff.mp h
    obtain ⟨es, rfl, mem⟩ := exists_entry_of_child? hchild
    exact .entry mem (ih hrest)

private theorem place_of_resolve (h : disk.resolve path = .ok item) :
    ∃ place, disk.place path = .ok place ∧ disk.root.get? place = some item := by
  unfold Disk.resolve at h
  cases hp : disk.place path with
  | error e => simp [hp, bind, Except.bind] at h
  | ok place =>
    simp only [hp, bind, Except.bind] at h
    split at h
    · rename_i found hget
      obtain rfl : found = item := Except.ok.inj h
      exact ⟨place, rfl, hget⟩
    · cases h

private theorem ne_empty_of_resolve (h : disk.resolve path = .ok item) : path ≠ "" := by
  obtain ⟨place, hplace, -⟩ := place_of_resolve h
  obtain ⟨ps, hps, -⟩ := Disk.place_eq_ok.mp hplace
  exact (Disk.of_piecesOf hps).1

/-! ### What is taken for a path -/

/-- The names lead on from where the path leads to a file that is taken for the path. -/
inductive Takes (disk : Disk) (extensions : List String) (path : String) : List String → Prop
  | file {content : Content} (leads : disk.resolve path = .ok (.file content)) : Takes disk extensions path []
  | below {es : List Entry} {names : List String} {content : Content}
      (leads : disk.resolve path = .ok (.folder es)) (rest : (Item.folder es).Leads names content)
      (visible : ∀ name ∈ names, isHidden name = false)
      (listed : ∃ x, Path.extension? (names.foldl Path.join path) = some x ∧ Path.Listed extensions x) :
      Takes disk extensions path names

private theorem Contributes.mem_iff {part : List String}
    (h : Contributes disk extensions path part) :
    q ∈ part ↔ ∃ names, Takes disk extensions path names ∧ names.foldl Path.join path = q := by
  cases h with
  | @file content leads =>
    constructor
    · intro hq
      exact ⟨[], .file leads, (List.mem_singleton.mp hq).symm⟩
    · rintro ⟨names, _ | ⟨leads', -, -, -⟩, rfl⟩
      · exact List.mem_singleton_self _
      · cases leads.symm.trans leads'
  | @folder es _ leads sorted mem =>
    rw [mem]
    constructor
    · rintro ⟨⟨names, content, rest, visible, rfl⟩, listed⟩
      exact ⟨names, .below leads rest visible listed, rfl⟩
    · rintro ⟨names, leads' | ⟨leads', rest, visible, listed⟩, rfl⟩
      · cases leads.symm.trans leads'
      · cases leads.symm.trans leads'
        exact ⟨⟨names, _, rest, visible, rfl⟩, listed⟩

private theorem mem_flatten_iff {parts : List (List String)}
    (h : List.Forall₂ (Contributes disk extensions) paths parts) : q ∈ parts.flatten ↔
      ∃ a ∈ paths, ∃ names, Takes disk extensions a names ∧ names.foldl Path.join a = q := by
  induction h with
  | nil => simp
  | cons hpart _ ih => simp [ih, hpart.mem_iff]

namespace Takes

private theorem ne_empty (h : Takes disk extensions path names) : path ≠ "" := by
  obtain leads | ⟨leads, -, -, -⟩ := h <;> exact ne_empty_of_resolve leads

private theorem isProper (hn : disk.root.Named) (h : Takes disk extensions path names) :
    ∀ name ∈ names, IsProper name := by
  obtain leads | ⟨leads, rest, visible, -⟩ := h
  · nofun
  · intro name hname
    obtain ⟨place, -, hget⟩ := place_of_resolve leads
    obtain ⟨hne, hslash⟩ := hn _ _ (.of_get? hget rest) name (List.mem_append_right _ hname)
    have hdot : (name.toList.head? == some '.') = false := visible name hname
    exact ⟨by simpa using hne, hslash, by simpa using hdot⟩

private theorem parts_eq (hn : disk.root.Named) (h : Takes disk extensions path names) :
    parts (names.foldl Path.join path) = parts path ++ names.map .name :=
  Path.parts_foldl_join h.ne_empty (h.isProper hn)

private theorem target_eq (hn : disk.root.Named) (h : Takes disk extensions path names) :
    disk.target (names.foldl Path.join path) = disk.target path ++ names :=
  Disk.target_foldl_join h.ne_empty (h.isProper hn)

end Takes

/-! ### What is found -/

private theorem exists_takes_of_mem (h : find disk extensions paths = .ok found) (hq : q ∈ found) :
    ∃ a ∈ given paths, ∃ names, Takes disk extensions a names ∧ names.foldl Path.join a = q := by
  obtain ⟨parts, hparts, hfound⟩ := exists_of_find_eq_ok h
  exact (mem_flatten_iff hparts).mp (hfound.subset hq)

private theorem exists_mem_of_takes (h : find disk extensions paths = .ok found)
    (hp : path ∈ given paths)
    (ht : Takes disk extensions path names) : ∃ q ∈ found, parts q = parts (names.foldl Path.join path) := by
  obtain ⟨_, hparts, hfound⟩ := exists_of_find_eq_ok h
  obtain ⟨q, hq, hsame⟩ := hfound.exists_same ((mem_flatten_iff hparts).mpr ⟨path, hp, names, ht, rfl⟩)
  exact ⟨q, hq, same_iff.mp hsame⟩

private theorem target_congr {p : String} (h : parts p = parts q) : disk.target p = disk.target q :=
  congrArg (List.foldl Part.follow disk.here) h

/-- Two of the paths lead to the same files only where the one that leads further is written like the other
with the names in between. -/
def SpelledAlike (disk : Disk) (extensions paths : List String) : Prop :=
  ∀ a ∈ paths, ∀ b ∈ paths, ∀ names more, disk.target b = disk.target a ++ names →
    Takes disk extensions a (names ++ more) → Takes disk extensions b more →
    parts b = parts a ++ names.map .name

private theorem pairwise_target_iff (hn : disk.root.Named)
    (h : find disk extensions paths = .ok found) :
    found.Pairwise (disk.target · ≠ disk.target ·) ↔ SpelledAlike disk extensions (given paths) := by
  constructor
  · intro honce a ha b hb names more htarget hta htb
    obtain ⟨p, hp, hpa⟩ := exists_mem_of_takes h ha hta
    obtain ⟨q, hq, hqb⟩ := exists_mem_of_takes h hb htb
    have hpq : disk.target p = disk.target q := by
      rw [target_congr hpa, target_congr hqb, hta.target_eq hn, htb.target_eq hn, htarget, List.append_assoc]
    have heq : p = q := by
      by_contra hne
      have hsymm : Std.Symm fun p q : String => disk.target p ≠ disk.target q := ⟨fun _ _ => Ne.symm⟩
      exact honce.forall hp hq hne hpq
    have hparts : parts a ++ (names ++ more).map .name = parts b ++ more.map .name := by
      rw [← hta.parts_eq hn, ← htb.parts_eq hn, ← hpa, ← hqb, heq]
    rw [List.map_append, ← List.append_assoc] at hparts
    exact (List.append_cancel_right hparts).symm
  · intro halike
    obtain ⟨_, -, hfound⟩ := exists_of_find_eq_ok h
    refine hfound.pairwise.imp_of_mem fun {p q} hp hq hdiffers hpq => ?_
    obtain ⟨a, ha, names, hta, rfl⟩ := exists_takes_of_mem h hp
    obtain ⟨b, hb, more, htb, rfl⟩ := exists_takes_of_mem h hq
    rw [hta.target_eq hn, htb.target_eq hn] at hpq
    refine Bool.eq_false_iff.mp hdiffers (same_iff.mpr ?_)
    rw [hta.parts_eq hn, htb.parts_eq hn]
    -- One of the two paths leads at least as far as the other.
    rcases List.append_eq_append_iff.mp hpq with ⟨between, hb', rfl⟩ | ⟨between, ha', rfl⟩
    · rw [halike a ha b hb between more hb' hta htb, List.map_append, List.append_assoc]
    · rw [halike b hb a ha between names ha' htb hta, List.map_append, List.append_assoc]

/-- Paths that are written as names alone are written alike. -/
private theorem spelledAlike_of_names
    (h : ∀ path ∈ paths, ∃ names : List String, parts path = names.map .name) :
    SpelledAlike disk extensions paths := by
  have htarget {path : String} {names : List String} (hparts : parts path = names.map .name) :
      disk.target path = disk.here ++ names := by
    rw [Disk.target, hparts, Path.foldl_follow_names]
  intro a ha b hb names more hab _ _
  obtain ⟨as, ha⟩ := h a ha
  obtain ⟨bs, hb⟩ := h b hb
  rw [htarget ha, htarget hb, List.append_assoc, List.append_cancel_left_eq] at hab
  rw [hb, hab, List.map_append, ha]

/-- One path is written like itself. -/
private theorem spelledAlike_singleton : SpelledAlike disk extensions [path] := by
  intro a ha b hb names more htarget _ _
  obtain rfl := List.mem_singleton.mp ha
  obtain rfl := List.mem_singleton.mp hb
  obtain rfl : names = [] := List.self_eq_append_right.mp htarget
  exact (List.append_nil _).symm

/-- On a disk with proper names, where every path leads to the place that it names. No two of the paths that are
found lead to the same file exactly if those of the given paths that stand for the same files are spelled alike,
up to the names that lead from the one to the other. So it is for paths that are written as names alone, for a
single path and for none. -/
theorem files_found_once_iff_spelled_alike (hn : disk.root.Named) (h : find disk extensions paths = .ok found) :
    (∀ path place, disk.place path = .ok place → disk.target path = place) ∧
    (found.Pairwise (disk.target · ≠ disk.target ·) ↔ SpelledAlike disk extensions (given paths)) ∧
    ((∀ path ∈ paths, ∃ names : List String, parts path = names.map .name) →
      found.Pairwise (disk.target · ≠ disk.target ·)) ∧
    (paths.length ≤ 1 → found.Pairwise (disk.target · ≠ disk.target ·)) := by
  have hiff := pairwise_target_iff hn h
  refine ⟨fun path place => Disk.target_eq_of_place, hiff, fun hnames => hiff.mpr ?_, fun hone => hiff.mpr ?_⟩
  · rw [given]
    split
    · exact spelledAlike_singleton
    · exact spelledAlike_of_names hnames
  · rw [given]
    split
    · exact spelledAlike_singleton
    · rename_i hsome
      obtain ⟨path, rfl⟩ : ∃ path, paths = [path] := by
        rw [← List.length_eq_one_iff]
        have hpos : 0 < paths.length := List.length_pos_iff.mpr (by simpa using hsome)
        omega
      exact spelledAlike_singleton

/-- A folder and a file in it. The file is found for both, and once. -/
theorem files_found_once_in_folder_and_file :
    ∃ disk : Disk, disk = .ofFolder ["w"] [.mk "d" (.folder [.mk "a.yaml" (.file (.text "k: 1\n"))])] ∧
      disk.root.Named ∧
      find disk ["yaml"] ["d", "d/a.yaml"] = .ok ["d/a.yaml"] ∧
      SpelledAlike disk ["yaml"] ["d", "d/a.yaml"] := by
  let disk : Disk := .ofFolder ["w"] [.mk "d" (.folder [.mk "a.yaml" (.file (.text "k: 1\n"))])]
  have hn : disk.root.Named := .cons (by decide) (.cons (by decide) (.cons (by decide) .file .nil) .nil) .nil
  have hbelow : belowEntries ["yaml"] "d" [.mk "a.yaml" (.file (.text "k: 1\n"))] = ["d/a.yaml"] := by
    simp only [belowEntries]
    decide +kernel
  have hfolder : expand disk ["yaml"] "d" = .ok ["d/a.yaml"] :=
    expand_of_below rfl hbelow (List.pairwise_singleton ..)
  have hfile : expand disk ["yaml"] "d/a.yaml" = .ok ["d/a.yaml"] := rfl
  have hfind : find disk ["yaml"] ["d", "d/a.yaml"] = .ok ["d/a.yaml"] := by
    have hparts : (given ["d", "d/a.yaml"]).mapM (expand disk ["yaml"]) = .ok [["d/a.yaml"], ["d/a.yaml"]] :=
      mapM_eq_ok_iff.mpr (.cons hfolder (.cons hfile .nil))
    rw [find_of_mapM hparts]
    decide +kernel
  obtain ⟨-, hiff, -⟩ := files_found_once_iff_spelled_alike hn hfind
  exact ⟨disk, rfl, hn, hfind, hiff.mp (List.pairwise_singleton ..)⟩

/-- The folder where the program runs and a file in it. The file is found twice, each time with another spelling. -/
theorem file_found_twice :
    ∃ disk : Disk, disk = .ofFolder ["w"] [.mk "a.yaml" (.file (.text "k: 1\n"))] ∧ disk.root.Named ∧
      find disk ["yaml"] [".", "a.yaml"] = .ok ["./a.yaml", "a.yaml"] ∧
      disk.place "./a.yaml" = .ok ["w", "a.yaml"] ∧ disk.place "a.yaml" = .ok ["w", "a.yaml"] := by
  let disk : Disk := .ofFolder ["w"] [.mk "a.yaml" (.file (.text "k: 1\n"))]
  have hn : disk.root.Named := .cons (by decide) (.cons (by decide) .file .nil) .nil
  have hbelow : belowEntries ["yaml"] "." [.mk "a.yaml" (.file (.text "k: 1\n"))] = ["./a.yaml"] := by
    simp only [belowEntries]
    decide +kernel
  have hfolder : expand disk ["yaml"] "." = .ok ["./a.yaml"] :=
    expand_of_below rfl hbelow (List.pairwise_singleton ..)
  have hfile : expand disk ["yaml"] "a.yaml" = .ok ["a.yaml"] := rfl
  have hfind : find disk ["yaml"] [".", "a.yaml"] = .ok ["./a.yaml", "a.yaml"] := by
    have hparts : (given [".", "a.yaml"]).mapM (expand disk ["yaml"]) = .ok [["./a.yaml"], ["a.yaml"]] :=
      mapM_eq_ok_iff.mpr (.cons hfolder (.cons hfile .nil))
    rw [find_of_mapM hparts]
    decide +kernel
  exact ⟨disk, rfl, hn, hfind, rfl, rfl⟩

end YamlOutline.Files
