import SampleDemux.Catalog
import SampleDemux.Location
import SampleDemux.Path

/-!
# File trees

A file tree says for every location whether there is a directory or a file with its content. Paths
are followed part by part from the root or from the working directory; every part but the last has
to lead to a directory. Failures have the texts of the operating system.
-/

namespace SampleDemux

/-- Why a file operation failed. -/
inductive FileError where
  /-- There is nothing at the path. -/
  | notFound
  /-- There is something at the path. -/
  | alreadyExists
  /-- A part that has to be a directory is a file. -/
  | notDirectory
  /-- A directory cannot be read or written as a file. -/
  | isDirectory
  /-- A path or a part of it has too many bytes. -/
  | nameTooLong
  /-- A name has a NUL character. -/
  | nulInName
  /-- The content is no text. -/
  | notText
  deriving DecidableEq, Repr

namespace FileError

/-- The text of a file error. -/
def message : FileError → String
  | notFound => "No such file or directory (os error 2)"
  | alreadyExists => "File exists (os error 17)"
  | notDirectory => "Not a directory (os error 20)"
  | isDirectory => "Is a directory (os error 21)"
  | nameTooLong => "File name too long (os error 36)"
  | nulInName => "file name contained an unexpected NUL byte"
  | notText => "stream did not contain valid UTF-8"

end FileError

/-- What is at a place. -/
inductive FileEntry where
  /-- A directory. -/
  | directory
  /-- A file with its content. -/
  | file (content : List UInt8)
  deriving DecidableEq

/-- Directories and files. -/
structure FileTree where
  /-- What is at each place below the root. -/
  entries : Catalog Location FileEntry := {}
  /-- Where relative paths begin. -/
  workingDirectory : Location := []

/-- Most bytes of a part of a path. -/
def maxNameBytes : Nat := 255

/-- Most bytes of a whole path. -/
def maxPathBytes : Nat := 4095

namespace FileTree

/-- What is at a place; the root is a directory. -/
def entry? (tree : FileTree) (location : Location) : Option FileEntry :=
  if location = [] then some .directory else tree.entries.find? location

/-- Follows one part of a path. -/
def enter (tree : FileTree) (location : Location) (part : List Char) :
    Except FileError Location :=
  match tree.entry? location with
  | none => .error .notFound
  | some (.file _) => .error .notDirectory
  | some .directory =>
    if maxNameBytes < (String.ofList part).utf8ByteSize then .error .nameTooLong
    else .ok (location.advance part)

/-- Follows parts one after the other. -/
def follow (tree : FileTree) : Location → List (List Char) → Except FileError Location
  | location, [] => .ok location
  | location, part :: rest =>
    match tree.enter location part with
    | .error error => .error error
    | .ok location => follow tree location rest

/-- Where a path begins. -/
def start (tree : FileTree) (path : Path) : Location :=
  if path.isAbsolute then [] else tree.workingDirectory

/-- The places that a path leads through. -/
def places (tree : FileTree) (path : Path) : List Location :=
  (tree.start path).trail (path.text.toList.splitOn '/')

/-- The place of a path. There may be nothing, but all that leads there has to be directories. -/
def locate (tree : FileTree) (path : Path) : Except FileError Location :=
  let chars := path.text.toList
  if chars = [] then .error .notFound
  else if '\x00' ∈ chars then .error .nulInName
  else if maxPathBytes < path.text.utf8ByteSize then .error .nameTooLong
  else tree.follow (tree.start path) (chars.splitOn '/')

/-- What is at a path. -/
def lookup (tree : FileTree) (path : Path) : Except FileError FileEntry :=
  match tree.locate path with
  | .error error => .error error
  | .ok location =>
    match tree.entry? location with
    | none => .error .notFound
    | some entry => .ok entry

/-- Whether there is a directory at a path. -/
def isDirectory (tree : FileTree) (path : Path) : Bool :=
  match tree.lookup path with
  | .ok .directory => true
  | _ => false

/-- The content of the file at a path. -/
def read (tree : FileTree) (path : Path) : Except FileError (List UInt8) :=
  match tree.lookup path with
  | .error error => .error error
  | .ok .directory => .error .isDirectory
  | .ok (.file content) => .ok content

/-- The content of the file at a path as text. -/
def readText (tree : FileTree) (path : Path) : Except FileError String :=
  match tree.read path with
  | .error error => .error error
  | .ok content =>
    match String.fromUTF8? ⟨content.toArray⟩ with
    | none => .error .notText
    | some text => .ok text

/-- The content of the file at a place, empty if there is none. -/
def contentAt (tree : FileTree) (location : Location) : List UInt8 :=
  match tree.entries.find? location with
  | some (.file content) => content
  | _ => []

/-- Puts something at a place. -/
def put (tree : FileTree) (location : Location) (entry : FileEntry) : FileTree :=
  { tree with entries := tree.entries.insert location entry }

/-- Makes an empty file at a path; a file that is there loses its content. -/
def createFile (tree : FileTree) (path : Path) : Except FileError Location × FileTree :=
  match tree.locate path with
  | .error error => (.error error, tree)
  | .ok location =>
    match tree.entry? location with
    | some .directory => (.error .isDirectory, tree)
    | _ => (.ok location, tree.put location (.file []))

/-- Makes a file with a content at a path. -/
def writeFile (tree : FileTree) (path : Path) (content : List UInt8) :
    Except FileError Unit × FileTree :=
  match tree.createFile path with
  | (.error error, tree) => (.error error, tree)
  | (.ok location, tree) => (.ok (), tree.put location (.file content))

/-- Makes a directory at a path. -/
def makeDirectory (tree : FileTree) (path : Path) : Except FileError Unit × FileTree :=
  match tree.locate path with
  | .error error => (.error error, tree)
  | .ok location =>
    match tree.entry? location with
    | some _ => (.error .alreadyExists, tree)
    | none => (.ok (), tree.put location .directory)

/-- Makes a directory at a path that may be one already. -/
def ensureDirectory (tree : FileTree) (path : Path) : Except FileError Unit × FileTree :=
  match tree.makeDirectory path with
  | (.ok (), tree) => (.ok (), tree)
  | (.error error, tree) => if tree.isDirectory path then (.ok (), tree) else (.error error, tree)

/-- Makes a directory at a path and, at most so many levels up, the ones that lead there. -/
def ensureDirectoriesUpTo :
    Nat → FileTree → Path → Except FileError Unit × FileTree
  | 0, tree, _ => (.error .notFound, tree)
  | levels + 1, tree, path =>
    if path.text.isEmpty then (.ok (), tree)
    else
      match tree.ensureDirectory path, path.parent? with
      | (.error .notFound, tree), some parent =>
        match ensureDirectoriesUpTo levels tree parent with
        | (.error error, tree) => (.error error, tree)
        | (.ok (), tree) => tree.ensureDirectory path
      | result, _ => result

/-- Makes a directory at a path and all the ones that lead there. -/
def ensureDirectories (tree : FileTree) (path : Path) : Except FileError Unit × FileTree :=
  ensureDirectoriesUpTo (path.parts.2.length + 2) tree path

/-- The files whose content is not the one in another tree. -/
def changedSince (tree before : FileTree) : List (Location × List UInt8) :=
  tree.entries.entries.filterMap fun (location, entry) =>
    match entry with
    | .directory => none
    | .file content =>
      if before.entry? location = some (.file content) then none else some (location, content)

/-- The directories that another tree does not have, each after the one that it is in. -/
def directoriesSince (tree before : FileTree) : List Location :=
  tree.entries.entries.filterMap fun (location, entry) =>
    if entry = .directory ∧ before.entry? location = none then some location else none

end FileTree

end SampleDemux
