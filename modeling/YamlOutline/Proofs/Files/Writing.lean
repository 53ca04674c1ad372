import YamlOutline.Files.Disk
import YamlOutline.Proofs.Text.Lines

/-! Writing a file. The path reads as what was written to it, and at every other place of the disk
there is what was there before. -/

namespace YamlOutline.Files

namespace Item

/-- What reading gives for what is shown. -/
def reading : Option Content → Except Failure String
  | none => .error .isFolder
  | some (.text t) => .ok t
  | some .binary => .error .notText

private theorem put_nest (new : Item) (names : List String) :
    (nest new names).put names new = nest new names := by
  induction names with
  | nil => simp [put, nest]
  | cons name names ih => simp [nest, put, putIn, ih]

mutual
/-- Putting the same item at the same place again changes nothing. -/
private theorem put_put (i : Item) (names : List String) (new : Item) :
    (i.put names new).put names new = i.put names new := by
  match i, names with
  | _, [] => simp [put]
  | file c, _ :: _ => simp [put]
  | folder es, name :: rest => simp only [put, putIn_putIn es]

private theorem putIn_putIn (es : List Entry) (name : String) (rest : List String) (new : Item) :
    putIn (putIn es name rest new) name rest new = putIn es name rest new := by
  match es with
  | [] => simp [putIn, put_nest]
  | .mk n i :: es =>
    by_cases hn : n = name
    · simp [putIn, hn, put_put i]
    · simp [putIn, hn, putIn_putIn es]
end

end Item

namespace Disk
variable {disk disk' : Disk} {root root' : Item} {place place' q : List String} {p : List Char}
  {ps : List (List Char)} {path text : String} {c : Content}

/-! ### Paths -/

/-- Where one piece of a path leads from a folder. -/
inductive Goes (place : List String) : List Char → List String → Prop
  | stay {p : List Char} (here : p = [] ∨ p = ['.']) : Goes place p place
  | up : Goes place ['.', '.'] place.dropLast
  | into {p : List Char} (nonempty : p ≠ []) (notHere : p ≠ ['.']) (notUp : p ≠ ['.', '.'])
      (short : Text.size p ≤ longestName) : Goes place p (place ++ [.ofList p])

/-- A path is followed piece by piece. -/
theorem follow_cons_eq_ok : follow root place (p :: ps) = .ok place' ↔
    root.isFolderAt place = true ∧ ∃ next, Goes place p next ∧ follow root next ps = .ok place' := by
  rw [Item.isFolderAt_iff, follow]
  constructor
  · intro h
    split at h
    · cases h
    · cases h
    · rename_i es hes
      refine ⟨⟨es, hes⟩, ?_⟩
      split at h
      · rename_i hstay
        exact ⟨place, .stay (by simpa using hstay), h⟩
      · rename_i hstay
        obtain ⟨hne, hhere⟩ : p ≠ [] ∧ p ≠ ['.'] := by simpa using hstay
        split at h
        · rename_i hup
          obtain rfl : p = ['.', '.'] := by simpa using hup
          exact ⟨_, .up, h⟩
        · rename_i hup
          split at h
          · cases h
          · rename_i hshort
            exact ⟨_, .into hne hhere (by simpa using hup) (Nat.le_of_not_lt hshort), h⟩
  · rintro ⟨⟨es, hes⟩, next, hgoes, h⟩
    rw [hes]
    cases hgoes with
    | stay here =>
      rw [if_pos (by simpa using here)]
      exact h
    | up => exact h
    | into nonempty notHere notUp short =>
      rw [if_neg (by simp [nonempty, notHere]), if_neg (by simpa using notUp), if_neg (Nat.not_lt_of_le short)]
      exact h

private theorem follow_append_eq_ok {qs : List (List Char)} :
    follow root place (ps ++ qs) = .ok place' ↔
    ∃ next, follow root place ps = .ok next ∧ follow root next qs = .ok place' := by
  induction ps generalizing place with
  | nil => simp [follow]
  | cons p ps ih =>
    simp only [List.cons_append, follow_cons_eq_ok, ih]
    constructor
    · rintro ⟨hfolder, next, hgoes, last, hps, hqs⟩
      exact ⟨last, ⟨hfolder, next, hgoes, hps⟩, hqs⟩
    · rintro ⟨last, ⟨hfolder, next, hgoes, hps⟩, hqs⟩
      exact ⟨hfolder, next, hgoes, last, hps, hqs⟩

/-- A path leads to the same place as long as the folders on its way are still folders. -/
private theorem follow_mono (h : ∀ q, root.isFolderAt q = true → root'.isFolderAt q = true)
    (hf : follow root place ps = .ok place') : follow root' place ps = .ok place' := by
  induction ps generalizing place with
  | nil => exact hf
  | cons p ps ih =>
    obtain ⟨hfolder, next, hgoes, hnext⟩ := follow_cons_eq_ok.mp hf
    exact follow_cons_eq_ok.mpr ⟨h place hfolder, next, hgoes, ih hnext⟩

theorem of_piecesOf (h : piecesOf path = .ok ps) : path ≠ "" ∧ ps = Text.pieces '/' path.toList := by
  simp only [piecesOf] at h
  split at h
  · cases h
  · split at h
    · cases h
    · split at h
      · cases h
      · rename_i hempty
        exact ⟨by simpa using hempty, (Except.ok.inj h).symm⟩

private theorem piecesOf_ne_nil (h : piecesOf path = .ok ps) : ps ≠ [] :=
  (of_piecesOf h).2 ▸ Text.pieces_ne_nil '/' _

/-- The pieces before the last and the last, if it is not empty. -/
private theorem pieces_eq_append {ps : List (List Char)} (hne : ps ≠ [])
    (h : ps.length ≤ (ps.reverse.dropWhile List.isEmpty).length) :
    ps = (ps.reverse.dropWhile List.isEmpty).tail.reverse ++
        [(ps.reverse.dropWhile List.isEmpty).headD []] ∧
      ((ps.reverse.dropWhile List.isEmpty).headD []).isEmpty = false := by
  obtain ⟨init, p, rfl⟩ := (List.eq_nil_or_concat ps).resolve_left hne
  rw [List.concat_eq_append] at h ⊢
  have hr : (init ++ [p]).reverse = p :: init.reverse := by simp
  rw [hr] at h ⊢
  cases hp : p.isEmpty with
  | false => simp [hp]
  | true =>
    have hl := (List.dropWhile_sublist (l := init.reverse) List.isEmpty).length_le
    rw [List.dropWhile_cons_of_pos hp] at h
    simp only [List.length_append, List.length_singleton, List.length_reverse] at h hl
    omega

theorem place_eq_ok : disk.place path = .ok q ↔ ∃ ps, piecesOf path = .ok ps ∧
    follow disk.root (disk.start path) ps = .ok q ∧ (disk.root.get? q).isSome = true := by
  unfold Disk.place
  cases hps : piecesOf path with
  | error e => simp [bind, Except.bind]
  | ok ps =>
    simp only [bind, Except.bind, Except.ok.injEq, exists_eq_left']
    cases hf : follow disk.root (disk.start path) ps with
    | error e => simp
    | ok next =>
      simp only [Except.ok.injEq]
      split
      · rename_i hsome
        simp only [pure, Except.pure, Except.ok.injEq]
        exact ⟨fun h => ⟨h, h ▸ hsome⟩, And.left⟩
      · rename_i hnone
        refine iff_of_false (by simp [throw, throwThe, MonadExceptOf.throw]) ?_
        rintro ⟨rfl, hsome⟩
        exact hnone hsome

/-- Reading a path depends on its place and on what that shows. -/
private theorem read_of_place (hp : disk.place path = .ok q) {x : Option Content}
    (hx : (disk.root.get? q).map Item.shown = some x) : disk.read path = Item.reading x := by
  obtain ⟨i, hi, rfl⟩ := Option.map_eq_some_iff.mp hx
  simp only [read, resolve, hp, hi, bind, Except.bind, pure, Except.pure]
  cases i with
  | folder es => rfl
  | file c => cases c <;> rfl

/-! ### Where a file is written -/

/-- Where a text goes that is written to a path: to a name in a folder that the path leads to. -/
def Receives (disk : Disk) (path : String) (slot : Slot disk.root) : Prop :=
  ∃ ps p, piecesOf path = .ok (ps ++ [p]) ∧ follow disk.root (disk.start path) ps = .ok slot.folder ∧
    slot.name = .ofList p ∧ p ≠ [] ∧ p ≠ ['.'] ∧ p ≠ ['.', '.'] ∧ Text.size p ≤ longestName

private theorem receives_of_slot {slot : Slot disk.root} (h : disk.slot path = .ok slot) :
    disk.Receives path slot := by
  unfold Disk.slot at h
  cases hps : piecesOf path with
  | error e => simp [hps, bind, Except.bind] at h
  | ok ps =>
    have hsplit := pieces_eq_append (piecesOf_ne_nil hps)
    simp only [hps, bind, Except.bind] at h
    generalize ps.reverse.dropWhile List.isEmpty = named at h hsplit
    cases hf : follow disk.root (disk.start path) named.tail.reverse with
    | error e => simp [hf] at h
    | ok folder =>
      simp only [hf] at h
      split at h
      · split at h
        · cases h
        · rename_i hlast
          simp only [Bool.or_eq_true, decide_eq_true_eq, beq_iff_eq, not_or, Nat.not_lt] at hlast
          obtain ⟨⟨hlen, hhere⟩, hup⟩ := hlast
          obtain ⟨hsplit, hne⟩ := hsplit hlen
          split at h
          · cases h
          · rename_i hshort
            split at h
            · obtain rfl := Except.ok.inj h
              exact ⟨_, _, hsplit ▸ hps, hf, rfl, by simpa using hne, hhere, hup, Nat.le_of_not_lt hshort⟩
            · cases h
      · cases h

private theorem Receives.slot_eq {slot : Slot disk.root} (h : disk.Receives path slot) :
    disk.slot path = .ok slot := by
  obtain ⟨ps, p, hps, hf, hname, hne, hhere, hup, hshort⟩ := h
  obtain ⟨folder, name, isFolder, isFree⟩ := slot
  obtain rfl : name = .ofList p := hname
  have hnamed : (ps ++ [p]).reverse.dropWhile List.isEmpty = p :: ps.reverse := by simp [hne]
  have hlength : ¬ (p :: ps.reverse).length < (ps ++ [p]).length := by simp
  have hhere' : (p == ['.']) = false := by simpa using hhere
  have hup' : (p == ['.', '.']) = false := by simpa using hup
  have hf' : follow disk.root (disk.start path) ps = .ok folder := hf
  unfold Disk.slot
  simp only [hps, hnamed, bind, Except.bind, List.tail_cons, List.headD_cons, List.reverse_reverse, hf',
    isFolder, isFree, hlength, hhere', hup', decide_false, Bool.or_self, Bool.false_eq_true, if_false,
    Nat.not_lt_of_le hshort, dif_pos]
  rfl

/-- Writing puts the text where the path leads to, and nothing else. -/
private theorem write_eq_ok : disk.write path text = .ok disk' ↔
    ∃ slot, disk.Receives path slot ∧ disk' = disk.fill slot (.text text) := by
  unfold write
  constructor
  · intro h
    cases hs : disk.slot path with
    | error e =>
      rw [hs] at h
      cases h
    | ok slot =>
      rw [hs] at h
      exact ⟨slot, receives_of_slot hs, (Except.ok.inj h).symm⟩
  · rintro ⟨slot, hslot, rfl⟩
    rw [hslot.slot_eq]
    rfl

namespace Receives
variable {slot : Slot disk.root}

/-- Every path leads where it led. -/
private theorem follow_fill (hf : follow disk.root place ps = .ok place') :
    follow (disk.fill slot c).root place ps = .ok place' :=
  follow_mono (fun q hq => (slot.isFolderAt_fill c q).trans hq) hf

/-- The path leads to the file that was put. -/
private theorem place_fill (h : disk.Receives path slot) :
    (disk.fill slot c).place path = .ok slot.place := by
  obtain ⟨ps, p, hps, hf, hname, hne, hhere, hup, hshort⟩ := h
  have hfolder : (disk.fill slot c).root.isFolderAt slot.folder = true :=
    (slot.isFolderAt_fill c slot.folder).trans slot.isFolder
  refine place_eq_ok.mpr ⟨_, hps, follow_append_eq_ok.mpr ⟨slot.folder, follow_fill hf, ?_⟩, ?_⟩
  · rw [Slot.place, hname]
    exact follow_cons_eq_ok.mpr ⟨hfolder, _, .into hne hhere hup hshort, rfl⟩
  · rw [fill_root, slot.get?_fill]
    rfl

private theorem read_fill (h : disk.Receives path slot) (text : String) :
    (disk.fill slot (.text text)).read path = .ok text := by
  refine read_of_place h.place_fill (x := some (.text text)) ?_
  rw [fill_root, slot.get?_fill]
  rfl

/-- Paths that lead elsewhere lead and read as before. -/
private theorem read_fill_of_ne {other : String} (ho : disk.place other = .ok q)
    (hq : q ≠ slot.place) :
    (disk.fill slot c).place other = .ok q ∧ (disk.fill slot c).read other = disk.read other := by
  obtain ⟨ps, hps, hf, hsome⟩ := place_eq_ok.mp ho
  obtain ⟨i, hi⟩ := Option.isSome_iff_exists.mp hsome
  have hshown : ((disk.fill slot c).root.get? q).map Item.shown = some i.shown := by
    rw [fill_root, slot.shown_fill c hq, hi]
    rfl
  have hplace : (disk.fill slot c).place other = .ok q := by
    refine place_eq_ok.mpr ⟨ps, hps, follow_fill hf, ?_⟩
    obtain ⟨j, hj, -⟩ := Option.map_eq_some_iff.mp hshown
    rw [hj]
    rfl
  refine ⟨hplace, ?_⟩
  rw [read_of_place hplace hshown, read_of_place ho (x := i.shown) (by rw [hi]; rfl)]

end Receives

/-- Writing the same text again changes nothing. -/
theorem write_again (h : disk.write path text = .ok disk') : disk'.write path text = .ok disk' := by
  obtain ⟨slot, hslot, rfl⟩ := write_eq_ok.mp h
  obtain ⟨ps, p, hps, hf, hlast⟩ := hslot
  have hslot' : (disk.fill slot (.text text)).Receives path (slot.again (.text text)) :=
    ⟨ps, p, hps, Receives.follow_fill hf, hlast⟩
  refine write_eq_ok.mpr ⟨slot.again (.text text), hslot', Disk.ext ?_ rfl⟩
  exact (Item.put_put disk.root slot.place _).symm

/-- The text was written to the file that the path leads to, and every path that led elsewhere
leads and reads as before. -/
def Wrote (disk : Disk) (path text : String) (disk' : Disk) : Prop :=
  disk'.read path = .ok text ∧ ∃ place, disk'.place path = .ok place ∧
    ∀ other q, disk.place other = .ok q → q ≠ place →
      disk'.place other = .ok q ∧ disk'.read other = disk.read other

theorem write_wrote (h : disk.write path text = .ok disk') : disk.Wrote path text disk' := by
  obtain ⟨slot, hslot, rfl⟩ := write_eq_ok.mp h
  exact ⟨hslot.read_fill text, _, hslot.place_fill, fun _ _ => Receives.read_fill_of_ne⟩

end Disk

end YamlOutline.Files
