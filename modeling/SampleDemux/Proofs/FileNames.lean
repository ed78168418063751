import SampleDemux.FileTree
import SampleDemux.Output.Target
import SampleDemux.Proofs.Sequences

/-!
# Names of output files

The files of all streams stand side by side: their paths agree up to the last part, which is the
base name, a dot and a suffix of the stream's own. So two files are one exactly if their suffixes
are the same. The suffix of a stream keeps only some characters of the stream's identity; streams
whose identities differ in the others alone have their files in common.
-/

namespace SampleDemux

namespace Path

/-- Parts that are left without blank ones at the end were there before. -/
theorem mem_of_mem_trimBlank {parts : List (List Char)} {part : List Char}
    (h : part ∈ trimBlank parts) : part ∈ parts := by
  have hdropped := (List.dropWhile_sublist isBlank).subset (List.mem_reverse.mp h)
  exact List.mem_reverse.mp hdropped

/-- A last part that means something is kept with all before it. -/
theorem trimBlank_concat {part : List Char} (h : isBlank part = false) (parts : List (List Char)) :
    trimBlank (parts ++ [part]) = parts ++ [part] := by
  rw [trimBlank, List.reverse_append, List.reverse_singleton, List.singleton_append,
    List.dropWhile_cons_of_neg (by simp [h]), ← List.singleton_append, List.reverse_append,
    List.reverse_reverse, List.reverse_singleton]

/-- A file name has no slashes. -/
theorem not_mem_fileName {path : Path} {name : String} (h : path.fileName? = some name) :
    '/' ∉ name.toList := by
  rw [fileName?] at h
  split at h
  · cases h
  · rename_i part hpart
    split at h
    · cases h
    · rw [← Option.some.inj h, String.toList_ofList]
      exact not_mem_of_mem_splitOn
        (mem_of_mem_trimBlank (List.mem_of_getLast? hpart))

/-- A name for a file: it has no slashes and is longer than the parts that mean nothing or lead
upwards. -/
structure IsPlain (name : List Char) : Prop where
  /-- There are no slashes. -/
  no_slash : '/' ∉ name
  /-- There are more than two characters. -/
  two_lt : 2 < name.length

namespace IsPlain

variable {name : List Char}

/-- A name means something. -/
theorem isBlank_eq (h : IsPlain name) : isBlank name = false := by
  have hlength := h.two_lt
  refine decide_eq_false fun hblank => ?_
  rcases hblank with rfl | rfl <;> simp at hlength

/-- A name leads from a place to a place there. -/
theorem advance_eq (h : IsPlain name) (location : Location) :
    location.advance name = location ++ [String.ofList name] := by
  have hlength := h.two_lt
  have hblank : ¬ (name = [] ∨ name = ['.']) := by
    rintro (rfl | rfl) <;> simp at hlength
  have hupward : name ≠ ['.', '.'] := by
    rintro rfl
    simp at hlength
  rw [Location.advance, if_neg hblank, if_neg hupward]

/-- A name alone begins at its first part. -/
theorem anchored_eq (h : IsPlain name) : anchored name = (.none, name) := by
  have hlength := h.two_lt
  have hslash := h.no_slash
  unfold anchored
  split
  · simp at hslash
  · simp at hlength
  · simp at hslash
  · rfl

end IsPlain

/-- What may stand before a file name: nothing, or characters that end with a slash. -/
def IsFolder (folder : List Char) : Prop := folder = [] ∨ ∃ front, folder = front ++ ['/']

/-- Characters with a slash at the end, unless there are none. -/
def closeFolder (chars : List Char) : List Char :=
  match chars.getLast? with
  | none => []
  | some last => if last = '/' then chars else chars ++ ['/']

/-- Nothing stands before a file name, or it ends with a slash. -/
theorem isFolder_closeFolder (chars : List Char) : IsFolder (closeFolder chars) := by
  unfold closeFolder
  split
  · exact .inl rfl
  · rename_i last hlast
    split
    · rename_i hslash
      obtain ⟨front, hfront⟩ := List.getLast?_eq_some_iff.mp hlast
      exact .inr ⟨front, hfront.trans (by rw [hslash])⟩
    · exact .inr ⟨_, rfl⟩

/-- The directory of a file that is put beside a path. -/
def directory (path : Path) : Path :=
  if path.fileName?.isSome then path.parent?.getD path else path

/-- What stands before the name of a file that is put beside a path. -/
def folder (path : Path) : List Char := closeFolder path.directory.text.toList

/-- What stands before a file name is a folder. -/
theorem isFolder_folder (path : Path) : IsFolder path.folder := isFolder_closeFolder _

/-- A name comes behind the folder that it is put into. -/
theorem toList_join (path : Path) {name : String} (h : '/' ∉ name.toList) :
    (path.join ⟨name⟩).text.toList = closeFolder path.text.toList ++ name.toList := by
  have hrelative : (Path.mk name).isAbsolute = false := by
    refine decide_eq_false fun hhead => h ?_
    exact List.mem_of_head? hhead
  rw [join, hrelative, closeFolder]
  cases path.text.toList.getLast? with
  | none => rfl
  | some last =>
    by_cases hslash : last = '/'
    · simp only [hslash, if_true, Bool.false_eq_true, if_false, String.toList_append]
    · simp only [hslash, if_false, Bool.false_eq_true, String.toList_append, List.append_assoc]
      rfl

/-- Another file name comes behind the same folder. -/
theorem toList_withFileName (path : Path) {name : String} (h : '/' ∉ name.toList) :
    (path.withFileName name).text.toList = path.folder ++ name.toList := by
  rw [withFileName, folder, ← path.directory.toList_join h, directory]

/-- The file name with a dot and a suffix. -/
def nameWith (path : Path) (suffix : String) : String :=
  path.fileName?.getD "" ++ "." ++ suffix

/-- A suffix of a file name: it has no slashes and at least two characters. -/
structure IsSuffix (suffix : String) : Prop where
  /-- There are no slashes. -/
  no_slash : '/' ∉ suffix.toList
  /-- There are at least two characters. -/
  two_le : 2 ≤ suffix.toList.length

variable {suffix : String}

/-- The characters of a file name with a suffix. -/
theorem toList_nameWith (path : Path) (suffix : String) :
    (path.nameWith suffix).toList = (path.fileName?.getD "").toList ++ '.' :: suffix.toList := by
  rw [nameWith, String.toList_append, String.toList_append, List.append_assoc]
  rfl

/-- A file name with a suffix is a name for a file. -/
theorem isPlain_nameWith (path : Path) (h : IsSuffix suffix) :
    IsPlain (path.nameWith suffix).toList := by
  have hbase : '/' ∉ (path.fileName?.getD "").toList := by
    cases hname : path.fileName? with
    | none => exact List.not_mem_nil
    | some name => exact not_mem_fileName hname
  rw [toList_nameWith]
  refine ⟨fun hslash => ?_, ?_⟩
  · rcases List.mem_append.mp hslash with hslash | hslash
    · exact hbase hslash
    · exact h.no_slash ((List.mem_cons.mp hslash).resolve_left (by decide))
  · have hlength := h.two_le
    rw [List.length_append, List.length_cons]
    omega

/-- Suffixes of the same file name can be told apart. -/
theorem nameWith_inj (path : Path) {other : String} :
    path.nameWith suffix = path.nameWith other ↔ suffix = other := by
  rw [← String.toList_inj, toList_nameWith, toList_nameWith, List.append_cancel_left_eq,
    List.cons.injEq, String.toList_inj]
  exact and_iff_right rfl

/-- A path with a suffix is a folder and a file name. -/
theorem toList_withSuffix (path : Path) (h : IsSuffix suffix) :
    (path.withSuffix suffix).text.toList = path.folder ++ (path.nameWith suffix).toList :=
  path.toList_withFileName (isPlain_nameWith path h).no_slash

/-- The parts of a folder come before the file name. -/
theorem exists_splitOn_folder {folder : List Char} (h : IsFolder folder) :
    ∃ parts, ∀ name, IsPlain name → (folder ++ name).splitOn '/' = parts ++ [name] := by
  rcases h with rfl | ⟨front, rfl⟩
  · exact ⟨[], fun name hname => List.splitOn_eq_singleton hname.no_slash⟩
  · refine ⟨front.splitOn '/', fun name hname => ?_⟩
    rw [List.append_assoc, List.singleton_append, List.splitOn_append_cons_self,
      List.splitOn_eq_singleton hname.no_slash]

/-- Where a path begins can be told from its folder, and what follows ends with the file name. -/
theorem exists_anchored_folder {folder : List Char} (h : IsFolder folder) :
    ∃ anchor rest, IsFolder rest ∧
      ∀ name, IsPlain name → anchored (folder ++ name) = (anchor, rest ++ name) := by
  rcases h with rfl | ⟨front, rfl⟩
  · exact ⟨.none, [], .inl rfl, fun name hname => hname.anchored_eq⟩
  -- What is before the last slash decides; the name begins behind it.
  have hbehind : ∀ (front : List Char) (name : List Char),
      front ++ ['/'] ++ name = front ++ '/' :: name :=
    fun front name => (List.append_cons front '/' name).symm
  rcases front with _ | ⟨first, front⟩
  · exact ⟨.root, [], .inl rfl, fun name _ => rfl⟩
  by_cases hroot : first = '/'
  · subst hroot
    exact ⟨.root, front ++ ['/'], .inr ⟨front, rfl⟩, fun name _ => rfl⟩
  by_cases hcurrent : first = '.'
  · subst hcurrent
    rcases front with _ | ⟨second, front⟩
    · exact ⟨.current, ['/'], .inr ⟨[], rfl⟩, fun name _ => rfl⟩
    by_cases hslash : second = '/'
    · subst hslash
      exact ⟨.current, '/' :: front ++ ['/'], .inr ⟨'/' :: front, rfl⟩, fun name _ => rfl⟩
    · refine ⟨.none, _, .inr ⟨'.' :: second :: front, rfl⟩, fun name _ => ?_⟩
      unfold anchored
      split <;> simp_all
  · refine ⟨.none, _, .inr ⟨first :: front, rfl⟩, fun name _ => ?_⟩
    unfold anchored
    split <;> simp_all

/-- Paths with suffixes have the same components but for the last one, which is the file name. -/
theorem exists_components_withSuffix (path : Path) :
    ∃ anchor directory, ∀ suffix, IsSuffix suffix →
      (path.withSuffix suffix).components =
        (anchor, directory ++ [(path.nameWith suffix).toList]) := by
  obtain ⟨anchor, rest, hrest, hanchored⟩ := exists_anchored_folder path.isFolder_folder
  obtain ⟨parts, hparts⟩ := exists_splitOn_folder hrest
  refine ⟨anchor, parts.filter (!isBlank ·), fun suffix hsuffix => ?_⟩
  have hplain := path.isPlain_nameWith hsuffix
  have hkept : [(path.nameWith suffix).toList].filter (!isBlank ·) =
      [(path.nameWith suffix).toList] := by
    rw [List.filter_cons_of_pos (by rw [hplain.isBlank_eq]; rfl), List.filter_nil]
  rw [components, Path.parts, toList_withSuffix path hsuffix, hanchored _ hplain]
  dsimp only
  rw [hparts _ hplain, trimBlank_concat hplain.isBlank_eq, List.filter_append, hkept]

/-- Paths with different suffixes are different ones. -/
theorem components_withSuffix_inj (path : Path) {first second : String} (hfirst : IsSuffix first)
    (hsecond : IsSuffix second) :
    (path.withSuffix first).components = (path.withSuffix second).components ↔
      first = second := by
  obtain ⟨anchor, directory, hcomponents⟩ := exists_components_withSuffix path
  rw [hcomponents first hfirst, hcomponents second hsecond, Prod.mk.injEq,
    List.append_cancel_left_eq, List.cons.injEq, String.toList_inj, nameWith_inj]
  exact ⟨fun h => h.2.1, fun h => ⟨rfl, h, rfl⟩⟩

end Path

namespace FileTree

/-- Following parts is following the first of them and then the others. -/
theorem follow_append (tree : FileTree) (location : Location) (front back : List (List Char)) :
    tree.follow location (front ++ back) =
      (tree.follow location front).bind fun location => tree.follow location back := by
  induction front generalizing location with
  | nil => rfl
  | cons part front ih =>
    rw [List.cons_append, follow, follow]
    cases tree.enter location part with
    | error error => rfl
    | ok location => exact ih location

/-- A path that leads somewhere leads there part by part. -/
theorem follow_of_locate {tree : FileTree} {path : Path} {location : Location}
    (h : tree.locate path = .ok location) :
    tree.follow (tree.start path) (path.text.toList.splitOn '/') = .ok location := by
  unfold locate at h
  dsimp only at h
  split at h
  · cases h
  split at h
  · cases h
  split at h
  · cases h
  · exact h

/-- Following a name leads to the place of that name. -/
theorem eq_of_enter {tree : FileTree} {place location : Location} {name : List Char}
    (hname : Path.IsPlain name) (h : tree.enter place name = .ok location) :
    location = place ++ [String.ofList name] := by
  unfold enter at h
  split at h
  · cases h
  · cases h
  · split at h
    · cases h
    · rw [← Except.ok.inj h, hname.advance_eq]

/-- Where a path with a suffix begins does not depend on the suffix. -/
theorem start_withSuffix (tree : FileTree) (path : Path) {suffix : String}
    (h : Path.IsSuffix suffix) :
    tree.start (path.withSuffix suffix) =
      if path.folder.head? = some '/' then [] else tree.workingDirectory := by
  have hname : (path.nameWith suffix).toList.head? ≠ some '/' := fun hhead =>
    (path.isPlain_nameWith h).no_slash (List.mem_of_head? hhead)
  have hhead : (path.withSuffix suffix).isAbsolute = decide (path.folder.head? = some '/') := by
    rw [Path.isAbsolute, path.toList_withSuffix h, List.head?_append]
    cases path.folder.head? with
    | none => simp only [Option.none_or, hname, reduceCtorEq]
    | some first => rw [Option.some_or]
  rw [start, hhead]
  simp only [decide_eq_true_eq]

/-- Paths with suffixes lead to places in one directory. -/
theorem exists_place_of_locate {tree : FileTree} {path : Path} {first second : String}
    {one other : Location} (hfirst : Path.IsSuffix first) (hsecond : Path.IsSuffix second)
    (hone : tree.locate (path.withSuffix first) = .ok one)
    (hother : tree.locate (path.withSuffix second) = .ok other) :
    ∃ place, one = place ++ [path.nameWith first] ∧ other = place ++ [path.nameWith second] := by
  obtain ⟨parts, hparts⟩ := Path.exists_splitOn_folder path.isFolder_folder
  have hfollow : ∀ {suffix : String} {location : Location}, Path.IsSuffix suffix →
      tree.locate (path.withSuffix suffix) = .ok location →
      ∃ place, tree.follow
          (if path.folder.head? = some '/' then [] else tree.workingDirectory) parts = .ok place ∧
        location = place ++ [path.nameWith suffix] := by
    intro suffix location hsuffix hlocate
    have hplain := path.isPlain_nameWith hsuffix
    have hled := follow_of_locate hlocate
    rw [start_withSuffix tree path hsuffix, path.toList_withSuffix hsuffix, hparts _ hplain,
      follow_append] at hled
    cases hplace : tree.follow
        (if path.folder.head? = some '/' then [] else tree.workingDirectory) parts with
    | error error =>
      rw [hplace] at hled
      cases hled
    | ok place =>
      refine ⟨place, rfl, ?_⟩
      rw [hplace] at hled
      change tree.follow place [(path.nameWith suffix).toList] = .ok location at hled
      rw [follow] at hled
      cases henter : tree.enter place (path.nameWith suffix).toList with
      | error error =>
        rw [henter] at hled
        cases hled
      | ok entered =>
        rw [henter] at hled
        rw [← Except.ok.inj hled, eq_of_enter hplain henter, String.ofList_toList]
  obtain ⟨place, hplace, heq⟩ := hfollow hfirst hone
  obtain ⟨same, hsame, hsecondEq⟩ := hfollow hsecond hother
  rw [hplace] at hsame
  rw [Except.ok.inj hsame] at heq
  exact ⟨same, heq, hsecondEq⟩

end FileTree

/-- The character that stands for a character of a stream's identity. -/
def fileNameChar (c : Char) : Char := if staysInFileName c then c else '_'

/-- The characters of the part of a file name that stands for a stream. -/
theorem toList_fileStem (stream : String) :
    (fileStem stream).toList = stream.toList.map fileNameChar := String.toList_map

/-- A character that is a slash is replaced. -/
theorem fileNameChar_ne_slash (c : Char) : fileNameChar c ≠ '/' := by
  rw [fileNameChar]
  split
  · rename_i hstays
    rintro rfl
    revert hstays
    decide
  · decide

/-- Identities of streams have the same part of a file name if and only if they agree but for
characters that become underscores. -/
theorem fileStem_eq_iff (first second : String) :
    fileStem first = fileStem second ↔
      List.Forall₂ (fun c d => c = d ∨ fileNameChar c = '_' ∧ fileNameChar d = '_')
        first.toList second.toList := by
  have hchar : ∀ c d : Char, fileNameChar c = fileNameChar d ↔
      (c = d ∨ fileNameChar c = '_' ∧ fileNameChar d = '_') := by
    intro c d
    refine ⟨fun h => ?_, fun h => ?_⟩
    · by_cases hfirst : staysInFileName c
      · by_cases hsecond : staysInFileName d
        · rw [fileNameChar, fileNameChar, if_pos hfirst, if_pos hsecond] at h
          exact .inl h
        · have hreplaced : fileNameChar d = '_' := if_neg hsecond
          exact .inr ⟨h.trans hreplaced, hreplaced⟩
      · have hreplaced : fileNameChar c = '_' := if_neg hfirst
        exact .inr ⟨hreplaced, h.symm.trans hreplaced⟩
    · rcases h with rfl | ⟨hfirst, hsecond⟩
      · rfl
      · exact hfirst.trans hsecond.symm
  rw [← String.toList_inj, toList_fileStem, toList_fileStem, ← List.forall₂_eq_eq_eq,
    List.forall₂_map_left_iff, List.forall₂_map_right_iff]
  exact ⟨fun h => h.imp fun c d => (hchar c d).mp, fun h => h.imp fun c d => (hchar c d).mpr⟩

namespace Container

/-- What the names of files with samples end in. -/
def extension (container : Container) : String := "." ++ container.name

/-- What the names of files with samples and of their descriptions end in. -/
def extensions (container : Container) : List String := [container.extension, ".yaml"]

variable {container : Container} {one other : String}

/-- An extension has no slashes and some characters behind its dot. -/
theorem isSuffix_extension (h : one ∈ container.extensions) : Path.IsSuffix one := by
  rcases List.mem_cons.mp h with rfl | h
  · cases container <;> exact ⟨by decide, by decide⟩
  · rw [List.mem_singleton.mp h]
    exact ⟨by decide, by decide⟩

/-- A name with samples and a name with a description end in different characters. -/
theorem append_extension_ne (container : Container) (first second : String) :
    first ++ container.extension ≠ second ++ ".yaml" := by
  intro h
  have hends : container.extension.toList.getLast? ≠ ".yaml".toList.getLast? := by
    cases container <;> decide
  have hlast : (first ++ container.extension).toList.getLast? =
      (second ++ ".yaml").toList.getLast? := by rw [h]
  rw [String.toList_append, String.toList_append, List.getLast?_append_of_ne_nil,
    List.getLast?_append_of_ne_nil] at hlast
  · exact hends hlast
  · decide
  · cases container <;> decide

/-- Names agree if and only if they agree before and in their extensions. -/
theorem append_eq_iff (hone : one ∈ container.extensions) (hother : other ∈ container.extensions)
    {first second : String} :
    first ++ one = second ++ other ↔ one = other ∧ first = second := by
  have hcancel : ∀ extension : String,
      first ++ extension = second ++ extension ↔ first = second := fun extension => by
    rw [← String.toList_inj, String.toList_append, String.toList_append,
      List.append_cancel_right_eq, String.toList_inj]
  refine ⟨fun h => ?_, fun h => by rw [h.1, h.2]⟩
  rcases List.mem_cons.mp hone with rfl | hone
  · rcases List.mem_cons.mp hother with rfl | hother
    · exact ⟨rfl, (hcancel _).mp h⟩
    · rw [List.mem_singleton.mp hother] at h
      exact absurd h (container.append_extension_ne first second)
  · rw [List.mem_singleton.mp hone] at h ⊢
    rcases List.mem_cons.mp hother with rfl | hother
    · exact absurd h.symm (container.append_extension_ne second first)
    · rw [List.mem_singleton.mp hother] at h ⊢
      exact ⟨rfl, (hcancel _).mp h⟩

end Container

namespace OutputTarget

/-- The files of a stream. -/
def outputFiles (target : OutputTarget) (stream : String) : List Path :=
  [target.samplePath stream, target.sidecarPath stream]

/-- The name of the file with samples ends in the extension of the container. -/
theorem samplePath_eq (target : OutputTarget) (stream : String) :
    target.samplePath stream =
      target.base.withSuffix (fileStem stream ++ target.container.extension) := by
  rw [samplePath, Container.extension, String.append_assoc]

variable {target : OutputTarget}

/-- The files of a stream have the extensions of the container. -/
theorem exists_extension {stream : String} {path : Path} (h : path ∈ target.outputFiles stream) :
    ∃ extension ∈ target.container.extensions,
      path = target.base.withSuffix (fileStem stream ++ extension) := by
  simp only [outputFiles, List.mem_cons, List.not_mem_nil, or_false] at h
  rcases h with hsample | hsidecar
  · exact ⟨_, List.mem_cons_self, hsample.trans (target.samplePath_eq stream)⟩
  · exact ⟨_, List.mem_cons_of_mem _ List.mem_cons_self, hsidecar⟩

/-- The part of a name that stands for a stream makes a suffix with an extension. -/
theorem isSuffix_fileStem (stream : String) {extension : String}
    (h : extension ∈ target.container.extensions) :
    Path.IsSuffix (fileStem stream ++ extension) := by
  have hextension := Container.isSuffix_extension h
  refine ⟨fun hslash => ?_, ?_⟩
  · rw [String.toList_append, toList_fileStem] at hslash
    rcases List.mem_append.mp hslash with hstem | hslash
    · obtain ⟨c, -, hc⟩ := List.mem_map.mp hstem
      exact fileNameChar_ne_slash c hc
    · exact hextension.no_slash hslash
  · have hlength := hextension.two_le
    rw [String.toList_append, List.length_append]
    omega

/-- Files of streams are at one place of a tree only if they have the same extension and the same
part that stands for the stream. -/
theorem eq_of_locate {tree : FileTree} {location : Location} {first second one other : String}
    (hone : one ∈ target.container.extensions) (hother : other ∈ target.container.extensions)
    (hfirst : tree.locate (target.base.withSuffix (fileStem first ++ one)) = .ok location)
    (hsecond : tree.locate (target.base.withSuffix (fileStem second ++ other)) = .ok location) :
    one = other ∧ fileStem first = fileStem second := by
  obtain ⟨place, heq, hsame⟩ := FileTree.exists_place_of_locate (isSuffix_fileStem first hone)
    (isSuffix_fileStem second hother) hfirst hsecond
  have hnames : target.base.nameWith (fileStem first ++ one) =
      target.base.nameWith (fileStem second ++ other) :=
    List.singleton_inj.mp (List.append_cancel_left (heq.symm.trans hsame))
  exact (Container.append_eq_iff hone hother).mp ((target.base.nameWith_inj).mp hnames)

/-- Two streams have the same file with samples, and the same description, if and only if the same
part of a file name stands for them, which is so if and only if their identities agree but for
characters that become underscores. A file with samples is never a description. In a tree of files,
no file of one stream is at the place of a file of the other one otherwise. -/
theorem files_coincide_iff (target : OutputTarget) (first second : String) :
    ((target.samplePath first).components = (target.samplePath second).components ↔
      fileStem first = fileStem second) ∧
    ((target.sidecarPath first).components = (target.sidecarPath second).components ↔
      fileStem first = fileStem second) ∧
    (target.samplePath first).components ≠ (target.sidecarPath second).components ∧
    (fileStem first = fileStem second ↔
      List.Forall₂ (fun c d => c = d ∨ fileNameChar c = '_' ∧ fileNameChar d = '_')
        first.toList second.toList) ∧
    ∀ (tree : FileTree) (location : Location), ∀ one ∈ target.outputFiles first,
      ∀ other ∈ target.outputFiles second, tree.locate one = .ok location →
        tree.locate other = .ok location → fileStem first = fileStem second := by
  have hsample : target.container.extension ∈ target.container.extensions := List.mem_cons_self
  have hsidecar : ".yaml" ∈ target.container.extensions :=
    List.mem_cons_of_mem _ List.mem_cons_self
  refine ⟨?_, ?_, ?_, fileStem_eq_iff first second, ?_⟩
  · rw [samplePath_eq, samplePath_eq, Path.components_withSuffix_inj _
      (isSuffix_fileStem first hsample) (isSuffix_fileStem second hsample),
      Container.append_eq_iff hsample hsample]
    exact and_iff_right rfl
  · rw [sidecarPath, sidecarPath, Path.components_withSuffix_inj _
      (isSuffix_fileStem first hsidecar) (isSuffix_fileStem second hsidecar),
      Container.append_eq_iff hsidecar hsidecar]
    exact and_iff_right rfl
  · rw [samplePath_eq, sidecarPath, Ne, Path.components_withSuffix_inj _
      (isSuffix_fileStem first hsample) (isSuffix_fileStem second hsidecar)]
    exact target.container.append_extension_ne _ _
  · intro tree location one hone other hother hfirst hsecond
    obtain ⟨firstExtension, hfirstMem, hfirstPath⟩ := exists_extension hone
    obtain ⟨secondExtension, hsecondMem, hsecondPath⟩ := exists_extension hother
    rw [hfirstPath] at hfirst
    rw [hsecondPath] at hsecond
    exact (eq_of_locate hfirstMem hsecondMem hfirst hsecond).2

/-- A target for files beside `rec`. -/
def plainTarget : OutputTarget := { base := ⟨"rec"⟩ }

/-- Streams whose identities differ in a digit have files of their own, also in a tree that has
nothing in it. -/
theorem files_coincide_iff_of_digits :
    (plainTarget.samplePath "L1").components ≠ (plainTarget.samplePath "L2").components ∧
    (∃ location, FileTree.locate {} (plainTarget.samplePath "L1") = .ok location ∧
      FileTree.locate {} (plainTarget.samplePath "L2") ≠ .ok location) := by
  have hstems : fileStem "L1" ≠ fileStem "L2" := by with_unfolding_all decide
  obtain ⟨hsamples, -, -, -, hplaces⟩ := files_coincide_iff plainTarget "L1" "L2"
  refine ⟨fun h => hstems (hsamples.mp h), ["rec.L1.raw"], by with_unfolding_all rfl, fun h => ?_⟩
  exact hstems (hplaces {} _ _ List.mem_cons_self _ List.mem_cons_self
    (by with_unfolding_all rfl) h)

/-- The streams `A/B` and `A_B` have all their files in common. -/
theorem files_of_slash_and_underscore :
    "A/B" ≠ "A_B" ∧ plainTarget.samplePath "A/B" = plainTarget.samplePath "A_B" ∧
      plainTarget.sidecarPath "A/B" = plainTarget.sidecarPath "A_B" := by
  have hslash : fileStem "A/B" = "A_B" := by with_unfolding_all rfl
  have hunderscore : fileStem "A_B" = "A_B" := by with_unfolding_all rfl
  refine ⟨by decide, ?_, ?_⟩
  · rw [samplePath, samplePath, hslash, hunderscore]
  · rw [sidecarPath, sidecarPath, hslash, hunderscore]

end OutputTarget

end SampleDemux
