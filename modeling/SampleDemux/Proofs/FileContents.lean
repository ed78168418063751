import SampleDemux.FileTree
import SampleDemux.Proofs.Delivery

/-!
# What files in a tree hold

Putting a file at a place changes that place alone. Paths lead through directories only, so a tree
that had no directory at the place before has all its paths lead where they led before, and what is
read at a path is what was put there last.
-/

namespace SampleDemux

namespace FileTree

variable {tree other later : FileTree} {place location : Location} {path : Path}

section Put

/-- What is put at a place below the root is there. -/
theorem entry?_put_self (tree : FileTree) (h : place ≠ []) (entry : FileEntry) :
    FileTree.entry? (tree.put place entry) place = some entry := by
  unfold entry?
  rw [if_neg h, put]
  exact Catalog.find?_insert_self ..

/-- What is at another place stays. -/
theorem entry?_put_of_ne (tree : FileTree) (h : location ≠ place) (entry : FileEntry) :
    FileTree.entry? (tree.put place entry) location = tree.entry? location := by
  unfold entry?
  rw [put]
  by_cases hroot : location = []
  · rw [if_pos hroot, if_pos hroot]
  · rw [if_neg hroot, if_neg hroot]
    exact Catalog.find?_insert_of_ne _ h _

/-- A file that is put at a place has its content there. -/
theorem contentAt_put (tree : FileTree) (place : Location) (content : List UInt8) :
    (tree.put place (.file content)).contentAt place = content := by
  rw [contentAt, put]
  dsimp only
  rw [Catalog.find?_insert_self]

/-- Contents of files at other places stay. -/
theorem contentAt_put_of_ne (tree : FileTree) (h : location ≠ place) (entry : FileEntry) :
    (tree.put place entry).contentAt location = tree.contentAt location := by
  rw [contentAt, contentAt, put]
  dsimp only
  rw [Catalog.find?_insert_of_ne _ h]

/-- A place without a directory is below the root. -/
theorem ne_nil_of_no_directory (h : tree.entry? place ≠ some .directory) : place ≠ [] := by
  rintro rfl
  exact h rfl

end Put

/-- Two trees have the same directories, and relative paths begin at the same place. -/
structure SameDirectories (tree other : FileTree) : Prop where
  /-- Relative paths begin at the same place. -/
  workingDirectory_eq : tree.workingDirectory = other.workingDirectory
  /-- A place has a directory in both or in none. -/
  directory_iff : ∀ place,
    tree.entry? place = some .directory ↔ other.entry? place = some .directory

/-- Following a part leads on from a directory, unless the part is too long. -/
theorem enter_eq_ok_iff {part : List Char} :
    tree.enter place part = .ok location ↔
      tree.entry? place = some .directory ∧
        (String.ofList part).utf8ByteSize ≤ maxNameBytes ∧ place.advance part = location := by
  rw [enter]
  split
  · rename_i hentry
    simp [hentry]
  · rename_i hentry
    simp [hentry]
  · rename_i hentry
    split <;> simp [hentry] <;> omega

namespace SameDirectories

/-- A tree has the same directories as itself. -/
theorem refl (tree : FileTree) : tree.SameDirectories tree := ⟨rfl, fun _ => Iff.rfl⟩

/-- A third tree has the same directories. -/
theorem trans (h : tree.SameDirectories other) (hlater : other.SameDirectories later) :
    tree.SameDirectories later :=
  ⟨h.workingDirectory_eq.trans hlater.workingDirectory_eq,
    fun place => (h.directory_iff place).trans (hlater.directory_iff place)⟩

/-- A file that is put where no directory was leaves the directories. -/
theorem put (h : tree.entry? place ≠ some .directory) (content : List UInt8) :
    tree.SameDirectories (tree.put place (.file content)) := by
  refine ⟨rfl, fun location => ?_⟩
  by_cases hplace : location = place
  · rw [hplace, entry?_put_self tree (ne_nil_of_no_directory h)]
    simp only [h, Option.some.injEq, reduceCtorEq]
  · rw [entry?_put_of_ne tree hplace]

/-- The same parts lead to the same places. -/
theorem follow_iff (h : tree.SameDirectories other) (start : Location) (parts : List (List Char)) :
    tree.follow start parts = .ok location ↔ other.follow start parts = .ok location := by
  induction parts generalizing start with
  | nil => exact Iff.rfl
  | cons part parts ih =>
    have henter : ∀ next, tree.enter start part = .ok next ↔ other.enter start part = .ok next :=
      fun next => by rw [enter_eq_ok_iff, enter_eq_ok_iff, h.directory_iff]
    have hfollow : ∀ tree : FileTree, tree.follow start (part :: parts) = .ok location ↔
        ∃ next, tree.enter start part = .ok next ∧ tree.follow next parts = .ok location := by
      intro tree
      rw [follow]
      cases tree.enter start part with
      | error error => simp only [reduceCtorEq, false_and, exists_false]
      | ok next => simp only [Except.ok.injEq, exists_eq_left']
    rw [hfollow, hfollow]
    exact exists_congr fun next => and_congr (henter next) (ih next)

/-- The same paths lead to the same places. -/
theorem locate_iff (h : tree.SameDirectories other) (path : Path) :
    tree.locate path = .ok location ↔ other.locate path = .ok location := by
  have hstart : tree.start path = other.start path := by
    rw [start, start, h.workingDirectory_eq]
  rw [locate, locate, hstart]
  split
  · exact Iff.rfl
  split
  · exact Iff.rfl
  split
  · exact Iff.rfl
  · exact h.follow_iff _ _

end SameDirectories

/-- A file can be put at a path, which leads to a place. -/
structure Admits (tree : FileTree) (path : Path) (place : Location) : Prop where
  /-- The path leads to the place. -/
  locate_eq : tree.locate path = .ok place
  /-- There is no directory at the place. -/
  entry_ne : tree.entry? place ≠ some .directory

/-- Trees with the same directories admit files at the same paths. -/
theorem SameDirectories.admits_iff (h : tree.SameDirectories other) :
    tree.Admits path place ↔ other.Admits path place := by
  refine ⟨fun hadmits => ⟨?_, ?_⟩, fun hadmits => ⟨?_, ?_⟩⟩
  · exact (h.locate_iff path).mp hadmits.locate_eq
  · exact mt (h.directory_iff place).mpr hadmits.entry_ne
  · exact (h.locate_iff path).mpr hadmits.locate_eq
  · exact mt (h.directory_iff place).mp hadmits.entry_ne

namespace Admits

/-- A file that is put at a path leaves the directories. -/
theorem put (h : tree.Admits path place) (content : List UInt8) :
    tree.SameDirectories (tree.put place (.file content)) := SameDirectories.put h.entry_ne content

/-- A file can be made where one is admitted. -/
theorem createFile_eq (h : tree.Admits path place) :
    tree.createFile path = (.ok place, tree.put place (.file [])) := by
  rw [createFile, h.locate_eq]
  dsimp only
  split
  · rename_i hentry
    exact absurd hentry h.entry_ne
  · rfl

/-- A file can be written where one is admitted. -/
theorem writeFile_eq (h : tree.Admits path place) (content : List UInt8) :
    tree.writeFile path content =
      (.ok (), (tree.put place (.file [])).put place (.file content)) := by
  rw [writeFile, h.createFile_eq]

/-- What is put at a path is read there. -/
theorem read_put (h : tree.Admits path place) (content : List UInt8) :
    (tree.put place (.file content)).read path = .ok content := by
  have hplace := ne_nil_of_no_directory h.entry_ne
  rw [read, lookup, ((h.put content).locate_iff path).mp h.locate_eq]
  dsimp only
  rw [entry?_put_self tree hplace]

/-- Putting a file elsewhere leaves what is read at a path. -/
theorem read_put_of_ne (h : tree.Admits path place) {path' : Path} {location : Location}
    (hother : tree.Admits path' location) (hne : place ≠ location) (content : List UInt8) :
    (tree.put location (.file content)).read path = tree.read path := by
  rw [read, read, lookup, lookup, ((hother.put content).locate_iff path).mp h.locate_eq,
    h.locate_eq]
  dsimp only
  rw [entry?_put_of_ne tree hne]

/-- A file that is put at one place and then one that is written at another place are both read. -/
theorem exists_writeFile (h : tree.Admits path place) {path' : Path} {location : Location}
    (hother : tree.Admits path' location) (hne : place ≠ location) (content text : List UInt8) :
    ∃ later, (tree.put place (.file content)).writeFile path' text = (.ok (), later) ∧
      tree.SameDirectories later ∧ later.contentAt place = content ∧
      later.read path = .ok content ∧ later.read path' = .ok text := by
  have hput := h.put content
  have hfirst := hput.admits_iff.mp h
  have hsecond := hput.admits_iff.mp hother
  -- The other file is made empty before it is written.
  have hempty := hsecond.put []
  have hfirstAgain := hempty.admits_iff.mp hfirst
  have hsecondAgain := hempty.admits_iff.mp hsecond
  refine ⟨_, hsecond.writeFile_eq text, (hput.trans hempty).trans (hsecondAgain.put text), ?_, ?_,
    hsecondAgain.read_put text⟩
  · rw [contentAt_put_of_ne _ hne, contentAt_put_of_ne _ hne, contentAt_put]
  · rw [hfirstAgain.read_put_of_ne hsecondAgain hne, hfirst.read_put_of_ne hsecond hne,
      h.read_put]

end Admits

/-- A file that was made was admitted. -/
theorem admits_of_createFile (h : (tree.createFile path).1 = .ok place) :
    tree.Admits path place := by
  unfold createFile at h
  split at h
  · cases h
  · rename_i found hlocate
    split at h
    · cases h
    · rename_i hentry
      rw [← Except.ok.inj h]
      exact ⟨hlocate, hentry⟩

/-- A file that was written was admitted. -/
theorem exists_admits_of_writeFile {content : List UInt8}
    (h : tree.writeFile path content = (.ok (), later)) : ∃ place, tree.Admits path place := by
  unfold writeFile at h
  split at h
  · cases h
  · rename_i place made hcreate
    exact ⟨place, admits_of_createFile (by rw [hcreate])⟩

end FileTree

end SampleDemux
