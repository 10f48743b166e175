/-
A tree of files, as a value.

* `FileError` — why a path cannot be read or written.
* `FileTree` — files and directories by their path from the top. A directory may be given, or only
  implied by what lies below it.
* `FileTree.read`, `FileTree.names`, `FileTree.write`, `FileTree.makeDirectories` — operations on
  paths, which are followed part by part.
* `FileTree.ofDirectory`, `FileTree.ofTexts` — a tree of a single directory, and one of texts.
-/

import Reckoner.Files.Path
import Reckoner.Symbols.Table

namespace Reckoner

/-- Why a path cannot be read or written. -/
inductive FileError where
  | missing
  | exists
  | notDirectory
  | isDirectory
  | nameTooLong
  /-- A zero character, which ends a path for the operating system. -/
  | zeroCharacter
  | other (message : String)
deriving DecidableEq

/-- The message for a path that cannot be read or written. -/
def FileError.message : FileError → String
  | missing => "No such file or directory (os error 2)"
  | .exists => "File exists (os error 17)"
  | notDirectory => "Not a directory (os error 20)"
  | isDirectory => "Is a directory (os error 21)"
  | nameTooLong => "File name too long (os error 36)"
  | zeroCharacter => "file name contained an unexpected NUL byte"
  | other message => message

/-- What stands at a path. -/
inductive FileNode where
  | file (text : String)
  | directory
deriving DecidableEq

/-- The names on the way from the top to a file or directory. -/
abbrev Trail := List (List Char)

/-- Files and directories by their way from the top. -/
structure FileTree where
  entries : List (Trail × FileNode)

namespace FileTree

/-- The tree with nothing in it. -/
def empty : FileTree := ⟨[]⟩

/-- What stands at the end of a way from the top. -/
def node? (tree : FileTree) (trail : Trail) : Option FileNode :=
  if trail = [] then some .directory
  else match tree.entries.lookup trail with
    | some node => some node
    | none =>
      if tree.entries.any fun (other, _) => trail.isPrefixOf other then some .directory else none

/-- Follows the parts of a path from a directory. All but the last place have to be directories. -/
def follow (tree : FileTree) (trail : Trail) : List PathPart → Except FileError Trail
  | [] => .ok trail
  | part :: rest =>
    match tree.node? trail with
    | none => .error .missing
    | some (.file _) => .error .notDirectory
    | some .directory =>
      match part with
      | .root => tree.follow [] rest
      | .here => tree.follow trail rest
      | .parent => tree.follow trail.dropLast rest
      | .name name =>
        if Path.maxNameSize < (String.ofList name).utf8ByteSize then .error .nameTooLong
        else tree.follow (trail ++ [name]) rest

/-- Follows a path from the top. -/
def resolve (tree : FileTree) (path : List Char) : Except FileError Trail :=
  if '\x00' ∈ path then .error .zeroCharacter
  else if path.isEmpty then .error .missing
  else tree.follow [] (Path.parts path)

/-- What stands at a path. -/
def find (tree : FileTree) (path : List Char) : Except FileError FileNode := do
  let trail ← tree.resolve path
  match tree.node? trail with
  | none => .error .missing
  | some (.file text) => if Path.endsOpen path then .error .notDirectory else .ok (.file text)
  | some .directory => .ok .directory

/-- The text of the file at a path. -/
def read (tree : FileTree) (path : List Char) : Except FileError String := do
  match ← tree.find path with
  | .file text => .ok text
  | .directory => .error .isDirectory

/-- Whether a file is at a path. -/
def isFile (tree : FileTree) (path : List Char) : Bool :=
  match tree.read path with
  | .ok _ => true
  | .error _ => false

/-- The names in the directory at a path. -/
def names (tree : FileTree) (path : List Char) : Except FileError NameSet := do
  let trail ← tree.resolve path
  match tree.node? trail with
  | none => .error .missing
  | some (.file _) => .error .notDirectory
  | some .directory =>
    let below := tree.entries.filterMap fun (other, _) =>
      if trail.isPrefixOf other then (other.drop trail.length).head?.map String.ofList else none
    .ok (.ofList below compare)

/-- The tree with a file or directory at the end of a way. -/
def insert (tree : FileTree) (trail : Trail) (node : FileNode) : FileTree :=
  ⟨(trail, node) :: tree.entries.filter fun (other, _) => other ≠ trail⟩

/-- Writes a file, in a directory that is there. -/
def write (tree : FileTree) (path : List Char) (text : String) : Except FileError FileTree := do
  let trail ← tree.resolve path
  match tree.node? trail with
  | some .directory => .error .isDirectory
  | some (.file _) =>
    if Path.endsOpen path then .error .notDirectory else .ok (tree.insert trail (.file text))
  | none =>
    if Path.endsInDot path then .error .missing
    else if Path.endsOpen path then .error .isDirectory
    else .ok (tree.insert trail (.file text))

/-- Makes a directory and those on the way to it, where they are not there yet. -/
def makeDirectoriesFrom (tree : FileTree) (trail : Trail) :
    List PathPart → Except FileError FileTree
  | [] => .ok tree
  | part :: rest => do
    let next ← tree.follow trail [part]
    match tree.node? next with
    | some .directory => tree.makeDirectoriesFrom next rest
    | some (.file _) => if rest.isEmpty then .error .exists else .error .notDirectory
    | none => (tree.insert next .directory).makeDirectoriesFrom next rest

/-- Makes the directory of a path and those on the way to it, where they are not there yet. -/
def makeDirectories (tree : FileTree) (path : List Char) : Except FileError FileTree :=
  tree.makeDirectoriesFrom [] (Path.parts path)

/-- The directories that a path leads through, with its end. -/
def waypoints (trail : Trail) : List PathPart → List Trail
  | [] => [trail]
  | .root :: rest => trail :: waypoints [] rest
  | .here :: rest => trail :: waypoints trail rest
  | .parent :: rest => trail :: waypoints trail.dropLast rest
  | .name name :: rest => trail :: waypoints (trail ++ [name]) rest

/-- A tree of nothing but the directory at a path, with what lies below it. -/
def ofDirectory (path : List Char) (below : List (Trail × FileNode)) : FileTree :=
  let way := waypoints [] (Path.parts path)
  ⟨way.map (·, .directory) ++ below.map fun (trail, node) => (way.getLastD [] ++ trail, node)⟩

/-- A tree of texts by path. A path that ends with a slash is an empty directory. -/
def ofTexts (texts : List (String × String)) : FileTree :=
  ⟨texts.map fun (path, text) =>
    let path := path.toList
    let trail := (Path.parts path).filterMap fun | .name name => some name | _ => none
    (trail, if Path.endsOpen path then .directory else .file text)⟩

end FileTree

end Reckoner
