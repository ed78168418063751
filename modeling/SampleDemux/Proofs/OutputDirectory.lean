import Mathlib.Data.List.TakeWhile
import SampleDemux.Proofs.FileNames

/-!
# The directory of output files

The files of a stream are directly in the directory of the base path, whatever the identity of the
stream is: it gives no slash to a path, and a name that has the base name, a dot and an extension in
it does not lead upwards. This is shown of the components of a path, of its last part and the path
before that, and of the place to which a tree of files leads.
-/

namespace SampleDemux

namespace Path

section Meaning

variable {chars name : List Char}

/-- Where a text begins, and its parts that mean something. -/
def meaning (chars : List Char) : Anchor × List (List Char) :=
  ((anchored chars).1, ((anchored chars).2.splitOn '/').filter (!isBlank ·))

/-- Parts that mean something are not lost with blank parts at the end. -/
theorem filter_trimBlank (parts : List (List Char)) :
    (trimBlank parts).filter (!isBlank ·) = parts.filter (!isBlank ·) := by
  have hblank : (parts.reverse.takeWhile isBlank).filter (!isBlank ·) = [] := by
    refine List.filter_eq_nil_iff.mpr fun part hpart => ?_
    rw [List.mem_takeWhile_imp hpart]
    decide
  have hsplit : parts.reverse.filter (!isBlank ·) =
      (parts.reverse.dropWhile isBlank).filter (!isBlank ·) := by
    conv_lhs => rw [← @List.takeWhile_append_dropWhile _ isBlank parts.reverse]
    rw [List.filter_append, hblank, List.nil_append]
  rw [trimBlank, List.filter_reverse, ← hsplit, List.filter_reverse, List.reverse_reverse]

/-- The last part that is left is the last one that means something. -/
theorem getLast?_trimBlank (parts : List (List Char)) :
    (trimBlank parts).getLast? = (parts.filter (!isBlank ·)).getLast? := by
  have hfirst := List.find?_not_eq_head?_dropWhile isBlank parts.reverse
  rw [trimBlank, List.getLast?_reverse, ← hfirst, ← List.head?_filter, List.filter_reverse,
    List.head?_reverse]

/-- The components of a path are what its text means. -/
theorem components_eq (path : Path) : path.components = meaning path.text.toList := by
  rw [components, parts, meaning]
  dsimp only
  rw [filter_trimBlank]

/-- A text begins at its first part unless that is empty or a single dot. -/
theorem anchored_of_not_isBlank {part : List Char} {parts : List (List Char)}
    (h : chars.splitOn '/' = part :: parts) (hpart : isBlank part = false) :
    anchored chars = (.none, chars) := by
  unfold anchored
  split
  · cases h
    cases hpart
  · cases h
    cases hpart
  · cases h
    cases hpart
  · rfl

/-- A text that begins at its first part has one that means something. -/
theorem exists_splitOn_of_anchored (hchars : chars ≠ []) (h : (anchored chars).1 = .none) :
    ∃ part parts, chars.splitOn '/' = part :: parts ∧ isBlank part = false := by
  obtain ⟨c, rest, rfl⟩ := List.exists_cons_of_ne_nil hchars
  have hslash : c ≠ '/' := by
    rintro rfl
    cases h
  obtain ⟨part, parts, hparts⟩ := List.exists_cons_of_ne_nil (List.splitOn_ne_nil '/' rest)
  refine ⟨c :: part, parts, splitOn_cons_of_ne hslash hparts, decide_eq_false fun hblank => ?_⟩
  obtain ⟨rfl, rfl⟩ := List.cons.inj (hblank.resolve_left (List.cons_ne_nil _ _))
  rcases eq_nil_or_cons_of_splitOn hparts with rfl | ⟨behind, rfl⟩ <;> cases h

/-- Where a text begins does not change when parts are added. -/
theorem anchored_append_slash (h : chars ≠ []) (back : List Char) :
    anchored (chars ++ '/' :: back) = ((anchored chars).1, (anchored chars).2 ++ '/' :: back) := by
  by_cases hnone : (anchored chars).1 = .none
  · obtain ⟨part, parts, hparts, hpart⟩ := exists_splitOn_of_anchored h hnone
    have hlonger : (chars ++ '/' :: back).splitOn '/' = part :: (parts ++ back.splitOn '/') := by
      rw [List.splitOn_append_cons_self, hparts, List.cons_append]
    rw [anchored_of_not_isBlank hlonger hpart, anchored_of_not_isBlank hparts hpart]
  -- The other beginnings are read off the characters themselves.
  unfold anchored at hnone ⊢
  split at hnone
  · rfl
  · rfl
  · rfl
  · exact absurd rfl hnone

/-- Parts are added behind those that are there. -/
theorem meaning_append_slash (h : chars ≠ []) (back : List Char) :
    meaning (chars ++ '/' :: back) =
      ((meaning chars).1, (meaning chars).2 ++ (back.splitOn '/').filter (!isBlank ·)) := by
  rw [meaning, anchored_append_slash h, List.splitOn_append_cons_self, List.filter_append]
  rfl

/-- A name for a file is no part that means nothing or leads upwards. -/
theorem IsPlain.ne_of_length_le {other : List Char} (h : IsPlain name) (hshort : other.length ≤ 2) :
    name ≠ other := by
  rintro rfl
  have hlong := h.two_lt
  omega

/-- A path with a name behind it means one part more. -/
theorem meaning_closeFolder (chars : List Char) (h : IsPlain name) :
    meaning (closeFolder chars ++ name) = ((meaning chars).1, (meaning chars).2 ++ [name]) := by
  have hkept : (name.splitOn '/').filter (!isBlank ·) = [name] := by
    rw [List.splitOn_eq_singleton h.no_slash,
      List.filter_cons_of_pos (by rw [h.isBlank_eq]; rfl), List.filter_nil]
  unfold closeFolder
  split
  · rename_i hempty
    rw [List.getLast?_eq_none_iff.mp hempty, List.nil_append, meaning, h.anchored_eq, hkept]
    rfl
  rename_i last hlast
  have hchars : chars ≠ [] := fun hnil => by
    rw [hnil] at hlast
    cases hlast
  split
  · -- The slash is there already: what is before it means the same.
    rename_i hslash
    obtain ⟨front, hfront⟩ := List.getLast?_eq_some_iff.mp hlast
    rw [hslash] at hfront
    rw [hfront, List.append_assoc, List.singleton_append]
    rcases front with _ | ⟨first, front⟩
    · rw [List.nil_append, meaning]
      exact Prod.ext rfl hkept
    · rw [meaning_append_slash (List.cons_ne_nil _ _), meaning_append_slash (List.cons_ne_nil _ _),
        hkept]
      exact Prod.ext rfl (by rw [List.splitOn_nil, List.filter_cons_of_neg (by decide),
        List.filter_nil, List.append_nil])
  · rw [List.append_assoc, List.singleton_append, meaning_append_slash hchars, hkept]

end Meaning

/-- A file that is put below a path has one component more. -/
theorem components_join (directory : Path) {name : String} (h : IsPlain name.toList) :
    (directory.join ⟨name⟩).components =
      (directory.components.1, directory.components.2 ++ [name.toList]) := by
  rw [components_eq, components_eq, toList_join directory h.no_slash, meaning_closeFolder _ h]

/-- The last component is the file name, unless it leads upwards. -/
theorem fileName?_of_components {path : Path} {part : List Char}
    (h : path.components.2.getLast? = some part) (hupward : part ≠ ['.', '.']) :
    path.fileName? = some (String.ofList part) := by
  have hlast : path.parts.2.getLast? = some part := by
    rw [← h, components_eq, parts, meaning]
    exact getLast?_trimBlank _
  rw [fileName?, hlast]
  exact if_neg hupward

section Parent

variable {anchor : Anchor} {part : List Char} {parts front back : List (List Char)}

/-- Parts from a beginning on, as they are read off a text: the last one means something, and the
first one can be told from the beginning. -/
structure IsWritten (anchor : Anchor) (parts : List (List Char)) : Prop where
  /-- There are no slashes. -/
  no_slash : ∀ part ∈ parts, '/' ∉ part
  /-- The last part means something. -/
  last : ∀ part, parts.getLast? = some part → isBlank part = false
  /-- Without a mark before it, the first part means something. -/
  unmarked : anchor = .none → ∀ part, parts.head? = some part → isBlank part = false
  /-- There is a slash behind a written current directory. -/
  current : anchor = .current → ∀ part, parts.head? = some part → part = []

/-- The last part that is left without blank ones means something. -/
theorem isBlank_of_getLast?_trimBlank (h : (trimBlank parts).getLast? = some part) :
    isBlank part = false := by
  rw [getLast?_trimBlank] at h
  have hkept := (List.mem_filter.mp (List.mem_of_getLast? h)).2
  simpa using hkept

/-- Blank parts come behind the ones that are left. -/
theorem exists_append_trimBlank (parts : List (List Char)) :
    ∃ blank, parts = trimBlank parts ++ blank := by
  refine ⟨(parts.reverse.takeWhile isBlank).reverse, ?_⟩
  rw [trimBlank, ← List.reverse_append, List.takeWhile_append_dropWhile, List.reverse_reverse]

/-- The first parts are written like all of them. -/
theorem IsWritten.of_append (h : IsWritten anchor (front ++ back))
    (hlast : ∀ part, front.getLast? = some part → isBlank part = false) :
    IsWritten anchor front := by
  have hfirst : ∀ part, front.head? = some part → (front ++ back).head? = some part :=
    fun part hpart => by rw [List.head?_append, hpart, Option.some_or]
  exact ⟨fun part hpart => h.no_slash part (List.mem_append_left _ hpart), hlast,
    fun hanchor part hpart => h.unmarked hanchor part (hfirst part hpart),
    fun hanchor part hpart => h.current hanchor part (hfirst part hpart)⟩

/-- What follows a written current directory begins with an empty part. -/
theorem head?_splitOn_of_current {chars : List Char} (h : (anchored chars).1 = .current) :
    ((anchored chars).2.splitOn '/').head? = some [] := by
  unfold anchored at h ⊢
  split at h
  · cases h
  · rfl
  · rfl
  · cases h

/-- What is read off a path is written in it. -/
theorem isWritten_parts (path : Path) : IsWritten path.parts.1 path.parts.2 := by
  have hlast : ∀ part, path.parts.2.getLast? = some part → isBlank part = false :=
    fun part hpart => isBlank_of_getLast?_trimBlank hpart
  obtain ⟨blank, hblank⟩ := exists_append_trimBlank ((anchored path.text.toList).2.splitOn '/')
  have hfirst : ∀ part, path.parts.2.head? = some part →
      ((anchored path.text.toList).2.splitOn '/').head? = some part := fun part hpart => by
    rw [hblank, List.head?_append]
    exact Option.or_eq_some_iff.mpr (.inl hpart)
  refine ⟨fun part hpart => not_mem_of_mem_splitOn (mem_of_mem_trimBlank hpart), hlast,
    fun hanchor part hpart => ?_, fun hanchor part hpart => ?_⟩
  · have hchars : path.text.toList ≠ [] := fun hnil => by
      rw [parts, hnil] at hpart
      cases hpart
    obtain ⟨first, others, hsplit, hmeans⟩ := exists_splitOn_of_anchored hchars hanchor
    have hhead := hfirst part hpart
    rw [anchored_of_not_isBlank hsplit hmeans, hsplit] at hhead
    rwa [← Option.some.inj hhead]
  · have hhead := hfirst part hpart
    rw [head?_splitOn_of_current hanchor] at hhead
    exact (Option.some.inj hhead).symm

/-- A path is read as it is written. -/
theorem IsWritten.components_ofParts (h : IsWritten anchor parts) :
    (ofParts anchor parts).components = (anchor, parts.filter (!isBlank ·)) := by
  rw [components_eq, ofParts, String.toList_ofList, meaning]
  rcases parts with _ | ⟨first, rest⟩
  · cases anchor <;> rfl
  have hsplit := List.splitOn_intercalate '/' h.no_slash (List.cons_ne_nil first rest)
  cases anchor with
  | none =>
    have hfirst : isBlank first = false := h.unmarked rfl first rfl
    rw [Anchor.chars, List.nil_append, anchored_of_not_isBlank hsplit hfirst, hsplit]
  | root =>
    change (Anchor.root, ((['/'].intercalate (first :: rest)).splitOn '/').filter (!isBlank ·)) = _
    rw [hsplit]
  | current =>
    obtain rfl : first = [] := h.current rfl first rfl
    -- The last part is another one than the empty part after the dot.
    obtain ⟨second, others, rfl⟩ : ∃ second others, rest = second :: others := by
      refine List.exists_cons_of_ne_nil fun hnil => ?_
      rw [hnil] at h
      cases h.last [] rfl
    change (Anchor.current,
      ((['/'].intercalate ([] :: second :: others)).splitOn '/').filter (!isBlank ·)) = _
    rw [hsplit]

/-- The path before the last component has the others. -/
theorem exists_parent {path : Path} {directory : List (List Char)}
    (h : path.components.2 = directory ++ [part]) :
    ∃ parent, path.parent? = some parent ∧ parent.components = (path.components.1, directory) := by
  have hwritten := path.isWritten_parts
  have hparts : path.components = (path.parts.1, path.parts.2.filter (!isBlank ·)) := rfl
  rw [hparts] at h ⊢
  dsimp only at h
  generalize hsplit : path.parts = split at h hwritten ⊢
  rcases split with ⟨anchor, parts⟩
  dsimp only at h hwritten ⊢
  obtain rfl | ⟨front, last, rfl⟩ := List.eq_nil_or_concat' parts
  · exact absurd h (by simp)
  have hlast : isBlank last = false := hwritten.last last (by simp)
  rw [List.filter_append, List.filter_cons_of_pos (by rw [hlast]; rfl), List.filter_nil] at h
  obtain ⟨hfront, -⟩ := List.append_inj' h rfl
  obtain ⟨blank, hblank⟩ := exists_append_trimBlank front
  refine ⟨ofParts anchor (trimBlank front), ?_, ?_⟩
  · rw [parent?, hsplit]
    simp
  · rw [hblank, List.append_assoc] at hwritten
    have hfirst : IsWritten anchor (trimBlank front) :=
      hwritten.of_append fun part hpart => isBlank_of_getLast?_trimBlank hpart
    rw [hfirst.components_ofParts, filter_trimBlank, hfront]

end Parent

end Path

namespace FileTree

variable {tree : FileTree} {place location : Location} {name : List Char}

/-- A name is followed from a directory, where an empty part leads as well. -/
theorem exists_of_follow_concat {parts : List (List Char)} (hname : Path.IsPlain name)
    (h : tree.follow place (parts ++ [name]) = .ok location) :
    ∃ directory, tree.follow place parts = .ok directory ∧
      tree.follow place (parts ++ [[]]) = .ok directory ∧
      location = directory ++ [String.ofList name] := by
  rw [follow_append] at h
  cases hdirectory : tree.follow place parts with
  | error error =>
    rw [hdirectory] at h
    cases h
  | ok directory =>
    rw [hdirectory] at h
    change tree.follow directory [name] = .ok location at h
    rw [follow] at h
    cases hentered : tree.enter directory name with
    | error error =>
      rw [hentered] at h
      cases h
    | ok entered =>
      rw [hentered] at h
      cases h
      refine ⟨directory, rfl, ?_, eq_of_enter hname hentered⟩
      have hblank : tree.enter directory [] = .ok directory := by
        unfold enter at hentered ⊢
        split at hentered
        · cases hentered
        · cases hentered
        · rfl
      rw [follow_append, hdirectory]
      change tree.follow directory [[]] = .ok directory
      rw [follow, hblank]
      rfl

/-- A text with the name of a file behind it leads to a place in the directory that the text leads
to. -/
theorem exists_of_follow_closeFolder {chars : List Char} (hname : Path.IsPlain name)
    (h : tree.follow place ((Path.closeFolder chars ++ name).splitOn '/') = .ok location) :
    ∃ directory, tree.follow place (chars.splitOn '/') = .ok directory ∧
      location = directory ++ [String.ofList name] := by
  have hbehind (front : List Char) : (front ++ ['/'] ++ name).splitOn '/' =
      front.splitOn '/' ++ [name] := by
    rw [List.append_assoc, List.singleton_append, List.splitOn_append_cons_self,
      List.splitOn_eq_singleton hname.no_slash]
  unfold Path.closeFolder at h
  split at h
  · rename_i hempty
    rw [List.getLast?_eq_none_iff.mp hempty]
    rw [List.nil_append, List.splitOn_eq_singleton hname.no_slash, ← List.nil_append [name]] at h
    obtain ⟨directory, -, hblank, hlocation⟩ := exists_of_follow_concat hname h
    exact ⟨directory, hblank, hlocation⟩
  rename_i last hlast
  split at h
  · rename_i hslash
    obtain ⟨front, rfl⟩ := List.getLast?_eq_some_iff.mp hlast
    rw [hslash, hbehind] at h
    obtain ⟨directory, -, hblank, hlocation⟩ := exists_of_follow_concat hname h
    rw [hslash, List.splitOn_append_cons_self]
    exact ⟨directory, hblank, hlocation⟩
  · rw [hbehind] at h
    obtain ⟨directory, hfollowed, -, hlocation⟩ := exists_of_follow_concat hname h
    exact ⟨directory, hfollowed, hlocation⟩

/-- A path begins where its directory begins. -/
theorem start_join (tree : FileTree) (directory : Path) {name : String}
    (h : '/' ∉ name.toList) : tree.start (directory.join ⟨name⟩) = tree.start directory := by
  have hname : name.toList.head? ≠ some '/' := fun hhead => h (List.mem_of_head? hhead)
  have hhead : (directory.join ⟨name⟩).isAbsolute = directory.isAbsolute := by
    rw [Path.isAbsolute, Path.isAbsolute, directory.toList_join h]
    unfold Path.closeFolder
    split
    · rename_i hempty
      rw [List.getLast?_eq_none_iff.mp hempty, List.nil_append]
      simp [hname]
    · rename_i last hlast
      obtain ⟨front, hfront⟩ := List.getLast?_eq_some_iff.mp hlast
      obtain ⟨first, rest, hchars⟩ := List.exists_cons_of_ne_nil
        (show directory.text.toList ≠ [] by rw [hfront]; exact List.concat_ne_nil _ _)
      rw [hchars]
      split <;> rfl
  rw [start, start, hhead]

end FileTree

namespace Path

/-- A path to something with a name that is directly in a directory. -/
structure IsIn (path directory : Path) (name : String) : Prop where
  /-- The name is one component. -/
  no_slash : '/' ∉ name.toList
  /-- The name does not stay where it is. -/
  ne_current : name ≠ "."
  /-- The name does not lead upwards. -/
  ne_upward : name ≠ ".."
  /-- The components are those of the directory, and the name. -/
  components_eq : path.components =
    (directory.components.1, directory.components.2 ++ [name.toList])
  /-- The name is the file name. -/
  fileName?_eq : path.fileName? = some name
  /-- What is before the name is the directory. -/
  parent : ∃ parent, path.parent? = some parent ∧ parent.components = directory.components
  /-- In a tree of files, the path leads to the place of that name in the place of the directory. -/
  place : ∀ (tree : FileTree) (location : Location), tree.locate path = .ok location →
    ∃ place, tree.follow (tree.start directory) (directory.text.toList.splitOn '/') = .ok place ∧
      location = place ++ [name]

/-- A file that is put below a path is directly in it. -/
theorem isIn_join (directory : Path) {name : String} (h : IsPlain name.toList) :
    (directory.join ⟨name⟩).IsIn directory name where
  no_slash := h.no_slash
  ne_current hname := h.ne_of_length_le (by decide) (congrArg String.toList hname)
  ne_upward hname := h.ne_of_length_le (by decide) (congrArg String.toList hname)
  components_eq := directory.components_join h
  fileName?_eq := by
    have hupward : name.toList ≠ ['.', '.'] := h.ne_of_length_le (Nat.le_refl _)
    rw [← @String.ofList_toList name]
    refine fileName?_of_components ?_ hupward
    rw [String.ofList_toList, directory.components_join h, List.getLast?_append]
    rfl
  parent := by
    obtain ⟨parent, hparent, hcomponents⟩ :=
      exists_parent (congrArg Prod.snd (directory.components_join h))
    refine ⟨parent, hparent, hcomponents.trans ?_⟩
    rw [directory.components_join h]
  place tree location hlocate := by
    have hled := FileTree.follow_of_locate hlocate
    rw [tree.start_join directory h.no_slash, directory.toList_join h.no_slash] at hled
    obtain ⟨place, hplace, hlocation⟩ := FileTree.exists_of_follow_closeFolder h hled
    rw [String.ofList_toList] at hlocation
    exact ⟨place, hplace, hlocation⟩

/-- The directory of a path with a file name is the path before it. -/
theorem parent?_eq_directory {path : Path} (h : path.fileName?.isSome) :
    path.parent? = some path.directory := by
  have hparts : path.parts.2 ≠ [] := fun hnil => by
    rw [fileName?, hnil] at h
    cases h
  obtain ⟨parent, hparent⟩ : ∃ parent, path.parent? = some parent :=
    ⟨_, if_neg (by rwa [List.isEmpty_iff])⟩
  rw [directory, if_pos h, hparent, Option.getD_some]

/-- A file that is put beside a path is directly in the directory of the path. -/
theorem isIn_withSuffix (path : Path) {suffix : String} (h : IsSuffix suffix) :
    (path.withSuffix suffix).IsIn path.directory (path.nameWith suffix) :=
  path.directory.isIn_join (path.isPlain_nameWith h)

end Path

/-- A letter or digit of the first 128 characters, a hyphen, an underscore or a dot. -/
def IsNameChar (c : Char) : Prop :=
  ('A' ≤ c ∧ c ≤ 'Z') ∨ ('a' ≤ c ∧ c ≤ 'z') ∨ ('0' ≤ c ∧ c ≤ '9') ∨ c = '-' ∨ c = '_' ∨ c = '.'

/-- A character that stays as it is may be in a name. -/
theorem isNameChar_of_staysInFileName {c : Char} (h : staysInFileName c) : IsNameChar c := by
  have hupper (h : c.isUpper) : 'A' ≤ c ∧ c ≤ 'Z' := of_decide_eq_true h
  have hlower (h : c.isLower) : 'a' ≤ c ∧ c ≤ 'z' :=
    (Bool.and_eq_true_iff.mp h).imp of_decide_eq_true of_decide_eq_true
  have hdigit (h : c.isDigit) : '0' ≤ c ∧ c ≤ '9' :=
    (Bool.and_eq_true_iff.mp h).imp of_decide_eq_true of_decide_eq_true
  have halpha (h : c.isAlpha) : c.isUpper ∨ c.isLower := Bool.or_eq_true_iff.mp h
  have halphanum (h : c.isAlphanum) : c.isAlpha ∨ c.isDigit := Bool.or_eq_true_iff.mp h
  simp only [staysInFileName, Bool.or_eq_true, decide_eq_true_eq] at h
  rcases h with ((hkept | rfl) | rfl) | rfl
  · rcases halphanum hkept with hletter | hnumeral
    · exact (halpha hletter).elim (fun h => .inl (hupper h)) fun h => .inr (.inl (hlower h))
    · exact .inr (.inr (.inl (hdigit hnumeral)))
  · exact .inr (.inr (.inr (.inl rfl)))
  · exact .inr (.inr (.inr (.inr (.inl rfl))))
  · exact .inr (.inr (.inr (.inr (.inr rfl))))

/-- A stream stands in names as characters that may be there. -/
theorem isNameChar_of_mem_fileStem {stream : String} {c : Char}
    (h : c ∈ (fileStem stream).toList) : IsNameChar c := by
  rw [toList_fileStem] at h
  obtain ⟨original, -, rfl⟩ := List.mem_map.mp h
  rw [fileNameChar]
  split
  · rename_i hstays
    exact isNameChar_of_staysInFileName hstays
  · exact .inr (.inr (.inr (.inr (.inl rfl))))

namespace OutputTarget

/-- The files of a stream are directly in the directory of the base path, or in the base path itself
when that has no file name, for every identity of the stream. The names are the base name, a dot,
what stands for the stream and the extension. -/
theorem files_in_directory (target : OutputTarget) (stream : String) :
    (target.base.fileName?.isSome → target.base.parent? = some target.base.directory) ∧
    (target.base.fileName? = none → target.base.directory = target.base) ∧
    (∀ c ∈ (fileStem stream).toList, IsNameChar c) ∧
    (target.samplePath stream).IsIn target.base.directory
      (target.base.fileName?.getD "" ++ "." ++ fileStem stream ++ "." ++ target.container.name) ∧
    (target.sidecarPath stream).IsIn target.base.directory
      (target.base.fileName?.getD "" ++ "." ++ fileStem stream ++ ".yaml") := by
  have hname (extension : String) : target.base.nameWith (fileStem stream ++ extension) =
      target.base.fileName?.getD "" ++ "." ++ fileStem stream ++ extension := by
    rw [Path.nameWith, ← String.append_assoc]
  have hin (extension : String) (h : extension ∈ target.container.extensions) :
      (target.base.withSuffix (fileStem stream ++ extension)).IsIn target.base.directory
        (target.base.fileName?.getD "" ++ "." ++ fileStem stream ++ extension) := by
    rw [← hname]
    exact target.base.isIn_withSuffix (isSuffix_fileStem stream h)
  refine ⟨Path.parent?_eq_directory, fun hnone => ?_, fun c => isNameChar_of_mem_fileStem, ?_, ?_⟩
  · rw [Path.directory, hnone]
    rfl
  · have hsample := hin target.container.extension List.mem_cons_self
    rw [← samplePath_eq, Container.extension, ← String.append_assoc] at hsample
    exact hsample
  · exact hin ".yaml" (List.mem_cons_of_mem _ List.mem_cons_self)

/-- An identity that looks like a path upwards does not become one. -/
example : (samplePath { base := ⟨"out/rec"⟩ } "../L1").text = "out/rec..._L1.raw" := by
  with_unfolding_all rfl

end OutputTarget

end SampleDemux
