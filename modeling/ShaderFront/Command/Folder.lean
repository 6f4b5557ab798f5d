import ShaderFront.Text.Bytes

/-!
# Files

The files that a command can reach, as a value: everything below one root, and the
folder among it that the command works in. A path is resolved part by part, and each
part but the last must be a folder. A path that starts with a slash starts at the root,
every other one at the working folder.
-/

namespace ShaderFront

/-- Why a path cannot be opened or read. -/
inductive FileError where
  /-- There is nothing at the path. -/
  | notFound
  /-- There is a folder where a file is needed. -/
  | isFolder
  /-- There is a file where a folder is needed. -/
  | notFolder
  /-- The path, or a name in it, is longer than it may be. -/
  | nameTooLong
  /-- The path holds a zero byte, which no name may. -/
  | invalidName
  deriving DecidableEq, Repr

/-- An error in words. -/
def FileError.text : FileError → String
  | notFound => "no such file or directory"
  | isFolder => "is a directory"
  | notFolder => "not a directory"
  | nameTooLong => "file name too long"
  | invalidName => "invalid argument"

/-- What was done to a file when it failed. -/
inductive FileAction where
  | opening
  | reading
  deriving DecidableEq, Repr

/-- A failed attempt to use a file. -/
structure FileFailure where
  /-- What was done. -/
  action : FileAction
  /-- The path as it was given. -/
  path : Bytes
  /-- Why it failed. -/
  error : FileError
  deriving DecidableEq, Repr

/-- A failed attempt in words. -/
def FileFailure.text (f : FileFailure) : Bytes :=
  (match f.action with
    | .opening => utf8 "open "
    | .reading => utf8 "read ") ++ f.path ++ utf8 ": " ++ utf8 f.error.text

/-- The byte between two parts of a path. -/
def slash : UInt8 := 0x2f

/-- The parts of a path. Slashes at the start, at the end or in a row give empty parts. -/
def pathParts (path : Bytes) : List Bytes :=
  splitAtByte slash path

/-- What is at a place. -/
inductive Entry where
  | file (content : Bytes)
  | folder
  | absent
  deriving DecidableEq, Repr

/-- A place that a path leads to: the names on the way from the root. -/
abbrev Location := List Bytes

/-- A working folder and all files that can be reached from it. -/
structure Folder where
  /-- The files, each with its content. -/
  files : List (Location × Bytes) := []
  /-- Folders that need not hold a file. -/
  folders : List Location := []
  /-- Where the working folder is. -/
  here : Location := []
  deriving DecidableEq, Repr

namespace Folder

/-- The names that a relative path without dots stands for. -/
def names (path : Bytes) : List Bytes :=
  (pathParts path).filter fun part => !part.isEmpty && part ≠ utf8 "."

/-- The name of the working folder where nothing is known about it. No path can hold it. -/
def unknownName : Bytes := [0]

/-- The folder that holds these files and folders, given by relative paths. There is
nothing around it. -/
def ofPaths (files : List (Bytes × Bytes)) (folders : List Bytes) : Folder where
  files := files.map fun f => (unknownName :: names f.1, f.2)
  folders := folders.map fun path => unknownName :: names path
  here := [unknownName]

/-- Is there a folder at this place? Everything that holds something is a folder. -/
def isFolder (f : Folder) (l : Location) : Bool :=
  l.isPrefixOf f.here || f.folders.any l.isPrefixOf ||
    f.files.any fun e => l.isPrefixOf e.1 && l ≠ e.1

/-- What is at a place. -/
def entry (f : Folder) (l : Location) : Entry :=
  match f.files.lookup l with
  | some content => .file content
  | none => if f.isFolder l then .folder else .absent

/-- The longest name that a file may have. -/
def longestName : Nat := 255

/-- Step from a place to one of its parts. The place must be a folder. -/
def descend (f : Folder) (l : Location) (part : Bytes) : Except FileError Location :=
  match f.entry l with
  | .absent => .error .notFound
  | .file _ => .error .notFolder
  | .folder =>
    if part.isEmpty || part = utf8 "." then .ok l
    else if part = utf8 ".." then .ok l.dropLast
    else if longestName < part.length then .error .nameTooLong
    else .ok (l ++ [part])

/-- The place from which a path with these parts starts. -/
def origin (f : Folder) : List Bytes → Location
  | [] :: _ :: _ => []
  | _ => f.here

/-- The place that the parts of a path lead to. -/
def resolve (f : Folder) (parts : List Bytes) : Except FileError Location :=
  parts.foldlM f.descend (f.origin parts)

/-- The longest path that can be looked up, whatever it leads to. -/
def longestPath : Nat := 4095

/-- Refuse the paths that no file can have. -/
def checkPath (path : Bytes) : Except FileError Unit :=
  if path.contains 0 then .error .invalidName
  else if path.isEmpty then .error .notFound
  else if longestPath < path.length then .error .nameTooLong
  else .ok ()

/-- The content of the file at a path. -/
def read (f : Folder) (path : Bytes) : Except FileFailure Bytes :=
  let place : Except FileError Location := do
    checkPath path
    f.resolve (pathParts path)
  match place with
  | .error e => .error ⟨.opening, path, e⟩
  | .ok l =>
    match f.entry l with
    | .file content => .ok content
    | .folder => .error ⟨.reading, path, .isFolder⟩
    | .absent => .error ⟨.opening, path, .notFound⟩

/-- The folder with a file put in place. -/
def put (f : Folder) (l : Location) (content : Bytes) : Folder :=
  if (f.files.lookup l).isSome then
    { f with files := f.files.map fun e => if e.1 = l then (l, content) else e }
  else { f with files := f.files ++ [(l, content)] }

/-- The place at which a file with this path would be written. The parts before the last
name must lead to a folder, which the empty part added to them asks for. A path that ends
in a slash names a folder, whether or not there is one and whatever its last name is. -/
def target (f : Folder) (path : Bytes) : Except FileError Location := do
  checkPath path
  let parts := pathParts path
  let trimmed := (parts.reverse.dropWhile List.isEmpty).reverse
  match trimmed.getLast? with
  | none => .error .isFolder
  | some last =>
    let around ← (trimmed.dropLast ++ [[]]).foldlM f.descend (f.origin parts)
    if trimmed.length < parts.length then .error .isFolder
    else
      let place ← f.descend around last
      if f.entry place = .folder then .error .isFolder
      else .ok place

/-- The folder after a file was written, or why it was not. -/
def write (f : Folder) (path content : Bytes) : Except FileFailure Folder :=
  match f.target path with
  | .error e => .error ⟨.opening, path, e⟩
  | .ok place => .ok (f.put place content)

/-- The files below the working folder that are new or have changed since an earlier
time, by their paths from there. -/
def changes (before after : Folder) : List (Bytes × Bytes) :=
  (after.files.filter fun e =>
    before.here.isPrefixOf e.1 && before.files.lookup e.1 ≠ some e.2).map fun e =>
    ([slash].intercalate (e.1.drop before.here.length), e.2)

end Folder

end ShaderFront
