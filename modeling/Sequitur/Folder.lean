import Sequitur.Text.Line

/-! # Folders

Text files and directories stand in a tree, and a program runs in one of the
directories, its folder. A file name leads to a path by its components, from
the root of the tree if it begins with a slash and from the folder if it does
not: each component but the last has to name a directory.
-/

namespace Sequitur

/-- The components of a place in a tree of files, from its root on; none for the root itself. -/
abbrev Path : Type :=
  List String

/-- What stands at a path. -/
inductive Entry where
  | file (text : String)
  | directory
  deriving DecidableEq

/-- Why a file cannot be opened. -/
inductive FileError where
  | notFound
  | isDirectory
  | notDirectory
  | nameTooLong
  | nullCharacter
  deriving DecidableEq

/-- The text of a file error. -/
def FileError.message : FileError → String
  | .notFound => "No such file or directory"
  | .isDirectory => "Is a directory"
  | .notDirectory => "Not a directory"
  | .nameTooLong => "File name too long"
  | .nullCharacter => "embedded null byte"

/-- A tree of files and the directory in it where a program runs. -/
structure Folder where
  /-- What stands in the tree, under its path. -/
  entries : List (Path × Entry)
  /-- The path of the directory. -/
  here : Path
  deriving DecidableEq

/-- The parts of a text between slashes, as lists of characters. -/
def charComponents : List Char → List (List Char)
  | [] => [[]]
  | c :: rest =>
      if c == '/' then [] :: charComponents rest else Text.consFirst c (charComponents rest)

/-- The components of a file name. -/
def components (name : String) : List String :=
  (charComponents name.toList).map String.ofList

/-- The number of bytes of the longest file name. -/
def longestName : Nat :=
  4095

/-- The number of bytes of the longest component of a file name. -/
def longestComponent : Nat :=
  255

namespace Folder

/-- The root of a tree without entries. -/
def empty : Folder :=
  ⟨[], []⟩

/-- The entry at a path. A program runs in a directory, below further ones. -/
def find? (folder : Folder) (path : Path) : Option Entry :=
  if path.isPrefixOf folder.here then some .directory else folder.entries.lookup path

/-- Put an entry at a path, in place of what stands there. -/
def insert (folder : Folder) (path : Path) (entry : Entry) : Folder :=
  ⟨(path, entry) :: folder.entries.filter fun other => other.1 != path, folder.here⟩

/-- The directories on the way to a path, the outermost first. -/
def parents (path : Path) : List Path :=
  (List.range path.length).map path.take |>.drop 1

/-- Put an entry at a path, and directories on the way to it. -/
def install (folder : Folder) (path : Path) (entry : Entry) : Folder :=
  ((parents path).foldl (fun folder parent => folder.insert parent .directory) folder).insert
    path entry

/-- Follow the components of a file name from a directory. Empty components and single dots stay,
double dots go to the directory above; above the root is the root. -/
def follow (folder : Folder) (place : Path) : List String → Except FileError Path
  | [] => .ok place
  | component :: rest =>
      if component = "" ∨ component = "." then folder.follow place rest
      else if component = ".." then folder.follow place.dropLast rest
      else if longestComponent < component.utf8ByteSize then .error .nameTooLong
      else if rest = [] then .ok (place ++ [component])
      else match folder.find? (place ++ [component]) with
        | none => .error .notFound
        | some (.file _) => .error .notDirectory
        | some .directory => folder.follow (place ++ [component]) rest

/-- The directory from which the components of a file name are followed. -/
def start (folder : Folder) (name : String) : Path :=
  if name.toList.head? = some '/' then [] else folder.here

/-- The path to which a file name leads. -/
def locate (folder : Folder) (name : String) : Except FileError Path :=
  if name.toList.contains '\x00' then .error .nullCharacter
  else if longestName < name.utf8ByteSize then .error .nameTooLong
  else folder.follow (folder.start name) (components name)

/-- The text of a file. -/
def read (folder : Folder) (name : String) : Except FileError String := do
  match folder.find? (← folder.locate name) with
  | none => .error .notFound
  | some .directory => .error .isDirectory
  | some (.file text) => .ok text

/-- Write a text to a file, in place of its former text. -/
def write (folder : Folder) (name : String) (text : String) : Except FileError Folder := do
  let path ← folder.locate name
  match folder.find? path with
  | some .directory => .error .isDirectory
  | _ => .ok (folder.insert path (.file text))

/-- The files of the tree with their texts. -/
def files (folder : Folder) : List (Path × String) :=
  folder.entries.filterMap fun (path, entry) =>
    match entry with
    | .file text => some (path, text)
    | .directory => none

end Folder

end Sequitur
