import ShaderPair.Cli.FileTree
import Mathlib.Data.List.Basic

/-!
# What file trees keep

Which location a path leads to depends on the directories and not on the files: it is the same in
every tree that has at least these directories (`FileTree.Widens.locatePath`).  Unless it is `..`,
the last name of a path is that of its location (`FileTree.getLast?_of_locatePath`).

To write a file changes what is read from it and from no other file.  To make a directory changes
no file (`FileTree.Grows`).
-/

namespace ShaderPair

namespace FileTree

variable {tree tree' tree'' : FileTree} {p q : Path} {l start : Location} {names : List Text}
  {name t : Text}

/-! ### Locations -/

/-- A tree with the same working directory and no fewer directories. -/
structure Widens (tree tree' : FileTree) : Prop where
  workingDirectory_eq : tree'.workingDirectory = tree.workingDirectory
  directories_subset : tree.directories ⊆ tree'.directories

theorem Widens.refl (tree : FileTree) :
  tree.Widens tree
  := ⟨rfl, List.Subset.refl _⟩

theorem Widens.trans (h : tree.Widens tree') (h' : tree'.Widens tree'') :
  tree.Widens tree''
  where
  workingDirectory_eq := h'.workingDirectory_eq.trans h.workingDirectory_eq
  directories_subset := List.Subset.trans h.directories_subset h'.directories_subset

theorem Widens.isDirectory (h : tree.Widens tree') (hl : tree.isDirectory l = true) :
  tree'.isDirectory l = true
  := by
  simp only [FileTree.isDirectory, Bool.or_eq_true, List.contains_iff_mem] at hl ⊢
  exact hl.imp_right fun hmem => h.directories_subset hmem

/-- What names lead to is found directory by directory. -/
theorem locate_cons_eq_ok_iff :
  tree.locate start (name :: names) = .ok l ↔
    tree.isDirectory start = true ∧ name.byteCount ≤ maxNameBytes ∧
      tree.locate (if name = ['.', '.'] then start.parent else start ++ [name]) names = .ok l
  := by
  rw [locate]
  cases tree.isDirectory start with
  | false => simp
  | true =>
    by_cases hlong : maxNameBytes < name.byteCount
    · simp [hlong, Nat.not_le.mpr hlong]
    · simp [hlong, Nat.le_of_not_lt hlong]

theorem Widens.locate (h : tree.Widens tree') (hl : tree.locate start names = .ok l) :
  tree'.locate start names = .ok l
  := by
  induction names generalizing start with
  | nil => exact hl
  | cons name names ih =>
    obtain ⟨hdirectory, hshort, hrest⟩ := locate_cons_eq_ok_iff.mp hl
    exact locate_cons_eq_ok_iff.mpr ⟨h.isDirectory hdirectory, hshort, ih hrest⟩

/-- A path leads to a location if its text is sound and its names lead there, from the working
directory on. -/
theorem locatePath_eq_ok_iff :
  tree.locatePath p = .ok l ↔
    '\x00' ∉ p.text ∧ p.text.byteCount ≤ maxPathBytes ∧
      tree.locate (.start (tree.workingDirectory.join p))
        (tree.workingDirectory.join p).names = .ok l
  := by
  rw [locatePath]
  by_cases hbroken : '\x00' ∈ p.text
  · simp [hbroken]
  · by_cases hlong : maxPathBytes < p.text.byteCount
    · simp [hbroken, hlong, Nat.not_le.mpr hlong]
    · simp [hbroken, hlong, Nat.le_of_not_lt hlong]

theorem Widens.locatePath (h : tree.Widens tree') (hp : tree.locatePath p = .ok l) :
  tree'.locatePath p = .ok l
  := by
  rw [locatePath_eq_ok_iff, h.workingDirectory_eq]
  exact (locatePath_eq_ok_iff.mp hp).imp_right (And.imp_right h.locate)

theorem getLast?_of_locate_concat
    (hname : name ≠ ['.', '.']) (h : tree.locate start (names ++ [name]) = .ok l) :
  l.getLast? = some name
  := by
  induction names generalizing start with
  | nil =>
    obtain ⟨-, -, hrest⟩ := locate_cons_eq_ok_iff.mp h
    rw [if_neg hname] at hrest
    cases hrest
    apply List.getLast?_concat
  | cons _ names ih =>
    obtain ⟨-, -, hrest⟩ := locate_cons_eq_ok_iff.mp h
    apply ih hrest

/-- The last name of a path is that of the file. -/
theorem getLast?_of_locatePath
    (h : tree.locatePath p = .ok l) (hlast : p.names.getLast? = some name)
    (hname : name ≠ ['.', '.']) :
  l.getLast? = some name
  := by
  obtain ⟨-, -, hnames⟩ := locatePath_eq_ok_iff.mp h
  obtain ⟨init, hinit⟩ := List.getLast?_eq_some_iff.mp hlast
  rw [Path.join] at hnames
  split at hnames
  · rw [hinit, ← List.append_assoc] at hnames
    apply getLast?_of_locate_concat hname hnames
  · rw [hinit] at hnames
    apply getLast?_of_locate_concat hname hnames

/-- Two paths lead to one place. -/
def SameFile (tree : FileTree) (p q : Path) : Prop :=
  ∃ l, tree.locatePath p = .ok l ∧ tree.locatePath q = .ok l

/-! ### Reading and writing -/

theorem read?_eq_ok_iff :
  tree.read? p = .ok t ↔ ∃ l, tree.locatePath p = .ok l ∧ tree.files.find? l = some t
  := by
  rw [read?]
  cases tree.locatePath p with
  | error _ => simp
  | ok l =>
    simp only [Except.ok.injEq, exists_eq_left']
    cases tree.files.find? l with
    | none => simp only [reduceCtorEq]
    | some _ => simp only [Except.ok.injEq, Option.some.injEq]

/-- To write a file puts its text at its location. -/
theorem write_eq_ok_iff :
  tree.write p t = .ok tree' ↔
    ∃ l, tree.locatePath p = .ok l ∧ tree.isDirectory l = false ∧
      tree' = { tree with files := tree.files.insert l t }
  := by
  rw [write]
  cases tree.locatePath p with
  | error _ => simp
  | ok l =>
    simp only [Except.ok.injEq, exists_eq_left']
    cases tree.isDirectory l with
    | true => simp
    | false => simpa using eq_comm

theorem widens_of_write (h : tree.write p t = .ok tree') :
  tree.Widens tree'
  := by
  obtain ⟨_, -, -, rfl⟩ := write_eq_ok_iff.mp h
  exact ⟨rfl, List.Subset.refl _⟩

/-- What is written is read again. -/
theorem read?_of_write (h : tree.write p t = .ok tree') :
  tree'.read? p = .ok t
  := by
  have hwidens := widens_of_write h
  obtain ⟨l, hl, -, rfl⟩ := write_eq_ok_iff.mp h
  exact read?_eq_ok_iff.mpr ⟨l, hwidens.locatePath hl, OrderedMap.find?_insert_self _ _ _⟩

/-- To write a file changes no other file. -/
theorem find?_of_write (h : tree.write p t = .ok tree') (hl : tree'.locatePath p ≠ .ok l) :
  tree'.files.find? l = tree.files.find? l
  := by
  have hwidens := widens_of_write h
  obtain ⟨l', hl', -, rfl⟩ := write_eq_ok_iff.mp h
  apply OrderedMap.find?_insert_of_ne
  rintro rfl
  exact hl (hwidens.locatePath hl')

/-! ### Making directories -/

/-- A tree with the same files and working directory, and no fewer directories. -/
structure Grows (tree tree' : FileTree) : Prop extends tree.Widens tree' where
  files_eq : tree'.files = tree.files

theorem Grows.refl (tree : FileTree) :
  tree.Grows tree
  := ⟨.refl tree, rfl⟩

theorem Grows.trans (h : tree.Grows tree') (h' : tree'.Grows tree'') :
  tree.Grows tree''
  := ⟨h.toWidens.trans h'.toWidens, h'.files_eq.trans h.files_eq⟩

theorem grows_of_makeNew (h : tree.makeNew p = .ok tree') :
  tree.Grows tree'
  := by
  rw [makeNew] at h
  cases hl : tree.locatePath p with
  | error _ =>
    rw [hl] at h
    cases h
  | ok l =>
    rw [hl, Except.bind] at h
    split at h
    · cases h
    · cases h
      exact ⟨⟨rfl, List.subset_append_left _ _⟩, rfl⟩

theorem grows_of_makeOrKeep (h : tree.makeOrKeep p = .ok tree') :
  tree.Grows tree'
  := by
  rw [makeOrKeep] at h
  split at h
  next hmake =>
    cases h
    apply grows_of_makeNew hmake
  · split at h
    · cases h
      apply Grows.refl
    · cases h

theorem grows_of_makeWay {count : Nat} (h : tree.makeWay p count = .ok tree') :
  tree.Grows tree'
  := by
  induction count generalizing tree' with
  | zero => exact grows_of_makeOrKeep h
  | succ count ih =>
    rw [makeWay] at h
    split at h
    · cases hway : tree.makeWay p count with
      | error _ =>
        rw [hway] at h
        cases h
      | ok between =>
        rw [hway] at h
        exact (ih hway).trans (grows_of_makeOrKeep h)
    · exact grows_of_makeOrKeep h

/-- To make a directory changes no file. -/
theorem grows_of_makeDirectory (h : tree.makeDirectory p = .ok tree') :
  tree.Grows tree'
  := grows_of_makeWay h

end FileTree

end ShaderPair
