/-!
Trees of folders and files, without links. A name that was put into a tree is found there, and what
was a folder before is one still.
-/

namespace YamlOutline.Files

/-- What a file holds. -/
inductive Content where
  | text (text : String)
  /-- Bytes that are no text. -/
  | binary
  deriving DecidableEq, Repr, Inhabited

mutual
inductive Item where
  | file (content : Content)
  | folder (entries : List Entry)

inductive Entry where
  | mk (name : String) (item : Item)
end

deriving instance Inhabited for Item
deriving instance Inhabited for Entry

def Entry.name : Entry → String
  | mk n _ => n

def Entry.item : Entry → Item
  | mk _ i => i

namespace Item

def isFolder : Item → Bool
  | folder _ => true
  | file _ => false

/-- The item with the name inside a folder. -/
def child? (i : Item) (name : String) : Option Item :=
  match i with
  | folder es => (es.find? (·.name == name)).map (·.item)
  | file _ => none

/-- The item that names lead to, one folder after the other. -/
def get? (i : Item) : List String → Option Item
  | [] => some i
  | name :: names => (i.child? name).bind (get? · names)

/-- Whether names lead to a folder. -/
def isFolderAt (i : Item) (names : List String) : Bool :=
  (i.get? names).any isFolder

/-- An item inside new folders with the given names. -/
def nest (new : Item) : List String → Item
  | [] => new
  | name :: more => .folder [.mk name (nest new more)]

mutual
/-- The tree with an item put at a place. Folders on the way are made if they do not exist. -/
def put (i : Item) (names : List String) (new : Item) : Item :=
  match i, names with
  | _, [] => new
  | file c, _ :: _ => file c
  | folder es, name :: rest => folder (putIn es name rest new)

def putIn (es : List Entry) (name : String) (rest : List String) (new : Item) :
    List Entry :=
  match es with
  | [] => [.mk name (nest new rest)]
  | .mk n i :: es =>
    if n = name then .mk n (put i rest new) :: es else .mk n i :: putIn es name rest new
end

variable {root new : Item} {es : List Entry} {names : List String}

theorem get?_nest (new : Item) (names : List String) : (nest new names).get? names = some new := by
  induction names with
  | nil => rfl
  | cons name names ih => simp [nest, get?, child?, Entry.name, Entry.item, ih]

theorem isFolderAt_iff : root.isFolderAt names = true ↔ ∃ es, root.get? names = some (folder es) := by
  unfold isFolderAt
  cases root.get? names with
  | none => simp
  | some i => cases i <;> simp [isFolder]

private theorem child?_putIn (es : List Entry) (name : String) (rest : List String) (new : Item)
    (m : String) :
    (folder (putIn es name rest new)).child? m =
      if m = name then
        some (match (folder es).child? name with | some i => i.put rest new | none => nest new rest)
      else (folder es).child? m := by
  induction es with
  | nil =>
    by_cases hm : m = name
    · simp [putIn, child?, hm, Entry.name, Entry.item]
    · simp [putIn, child?, hm, Ne.symm hm, Entry.name]
  | cons e es ih =>
    obtain ⟨k, i⟩ := e
    simp only [child?] at ih
    rw [putIn]
    by_cases hk : k = name
    · subst hk
      rw [if_pos rfl]
      by_cases hm : m = k
      · simp [child?, hm, Entry.name, Entry.item]
      · simp [child?, hm, Ne.symm hm, Entry.name]
    · rw [if_neg hk]
      by_cases hm : m = k
      · subst hm
        simp [child?, hk, Entry.name]
      · have hkm : (k == m) = false := by simpa using Ne.symm hm
        have hkn : (k == name) = false := by simpa using hk
        have hnext (fs : List Entry) (l : String) (hl : (k == l) = false) :
            (Entry.mk k i :: fs).find? (·.name == l) = fs.find? (·.name == l) :=
          List.find?_cons_of_neg (by simpa [Entry.name] using hl)
        simp only [child?, hnext _ _ hkm, hnext _ _ hkn]
        exact ih

private theorem get?_put_self (h : root.isFolderAt names = true) (name : String) (new : Item) :
    (root.put (names ++ [name]) new).get? (names ++ [name]) = some new := by
  induction names generalizing root with
  | nil =>
    obtain ⟨es, hes⟩ := isFolderAt_iff.mp h
    obtain rfl : root = folder es := Option.some.inj hes
    simp only [List.nil_append, put, get?, child?_putIn, if_pos]
    cases (folder es).child? name <;> simp [nest]
  | cons n names ih =>
    obtain ⟨fs, hfs⟩ := isFolderAt_iff.mp h
    cases root with
    | file c => simp [get?, child?] at hfs
    | folder es =>
      obtain ⟨i, hi, hg⟩ := Option.bind_eq_some_iff.mp hfs
      simp only [List.cons_append, put, get?, child?_putIn, if_pos, hi, Option.bind_some]
      exact ih (isFolderAt_iff.mpr ⟨fs, hg⟩)

/-- What an item shows without being opened: the content of a file, and nothing of a folder. -/
def shown : Item → Option Content
  | file c => some c
  | folder _ => none

private theorem isFolderAt_eq (root : Item) (names : List String) :
    root.isFolderAt names = ((root.get? names).map shown == some none) := by
  unfold isFolderAt
  cases root.get? names with
  | none => rfl
  | some i => cases i <;> simp [isFolder, shown]

/-- Beside the file that is put, every place shows what it showed. -/
private theorem shown_get?_put {name : String} {q : List String} (h : root.isFolderAt names = true)
    (hfree : root.isFolderAt (names ++ [name]) = false) (c : Content) (hq : q ≠ names ++ [name]) :
    ((root.put (names ++ [name]) (file c)).get? q).map shown = (root.get? q).map shown := by
  induction names generalizing root q with
  | nil =>
    obtain ⟨es, hes⟩ := isFolderAt_iff.mp h
    obtain rfl : root = folder es := Option.some.inj hes
    cases q with
    | nil => rfl
    | cons m q =>
      simp only [List.nil_append, put, get?, child?_putIn]
      by_cases hm : m = name
      · -- Below a file there is nothing, be it the new one or the one before it.
        subst hm
        have hne : q ≠ [] := fun hn => hq (by rw [hn]; rfl)
        obtain ⟨k, q, rfl⟩ := List.exists_cons_of_ne_nil hne
        rw [if_pos rfl]
        cases hc : (folder es).child? m with
        | none => simp [nest, get?, child?]
        | some i =>
          cases i with
          | file c' => simp [get?, child?]
          | folder fs => simp [isFolderAt, get?, hc, isFolder] at hfree
      · rw [if_neg hm]
  | cons n names ih =>
    obtain ⟨fs, hfs⟩ := isFolderAt_iff.mp h
    cases root with
    | file c => simp [get?, child?] at hfs
    | folder es =>
      obtain ⟨i, hi, hg⟩ := Option.bind_eq_some_iff.mp hfs
      cases q with
      | nil => rfl
      | cons m q =>
        simp only [List.cons_append, put, get?, child?_putIn]
        by_cases hm : m = n
        · subst hm
          rw [if_pos rfl, hi]
          refine ih (isFolderAt_iff.mpr ⟨fs, hg⟩) ?_ fun he => hq (by rw [he]; rfl)
          simpa [isFolderAt, get?, hi] using hfree
        · rw [if_neg hm]

end Item

/-- A name in a folder that may be that of a file: no folder has it. -/
structure Slot (root : Item) where
  folder : List String
  name : String
  isFolder : root.isFolderAt folder = true
  isFree : root.isFolderAt (folder ++ [name]) = false

namespace Slot
variable {root : Item} {slot : Slot root} {q : List String}

/-- The names that lead to the file. -/
def place (slot : Slot root) : List String := slot.folder ++ [slot.name]

/-- The tree with a file in the slot. -/
def fill (slot : Slot root) (content : Content) : Item :=
  root.put slot.place (.file content)

theorem get?_fill (slot : Slot root) (c : Content) : (slot.fill c).get? slot.place = some (.file c) :=
  Item.get?_put_self slot.isFolder slot.name _

theorem shown_fill (c : Content) (hq : q ≠ slot.place) :
    ((slot.fill c).get? q).map Item.shown = (root.get? q).map Item.shown :=
  Item.shown_get?_put slot.isFolder slot.isFree c hq

/-- What was a folder is one still, and nothing else is. -/
theorem isFolderAt_fill (slot : Slot root) (c : Content) (q : List String) :
    (slot.fill c).isFolderAt q = root.isFolderAt q := by
  by_cases hq : q = slot.place
  · rw [hq, Item.isFolderAt, get?_fill]
    exact slot.isFree.symm
  · rw [Item.isFolderAt_eq, shown_fill c hq, Item.isFolderAt_eq]

/-- The slot in the tree where it is filled: the name is that of a file, and may be again. -/
def again (slot : Slot root) (c : Content) : Slot (slot.fill c) :=
  { slot with
    isFolder := (slot.isFolderAt_fill c _).trans slot.isFolder
    isFree := (slot.isFolderAt_fill c _).trans slot.isFree }

end Slot

end YamlOutline.Files
