/-
Paths as texts.

* `PathPart` — the parts of a path between slashes. Empty parts mean nothing, and neither does a dot
  after the first part.
* `Path.parts` — the parts of a path. `Path.join` — a path followed by another.
* `Path.isName`, `Path.staysBelow` — paths that are a single name, and paths of names only.
* `Path.parent`, `Path.withExtension` — the directory of a path, and a path with another extension.
-/

import Reckoner.Text.Blank

namespace Reckoner

/-- A part of a path. -/
inductive PathPart where
  /-- The slash in front of an absolute path. -/
  | root
  /-- A dot at the start of a path. -/
  | here
  /-- Two dots. -/
  | parent
  | name (name : List Char)
deriving DecidableEq

namespace PathPart

/-- The part that a piece between slashes stands for, apart from the first one. -/
def ofPiece? (piece : List Char) : Option PathPart :=
  if piece = [] || piece = ['.'] then none
  else if piece = ['.', '.'] then some parent
  else some (name piece)

def isName : PathPart → Bool
  | name _ => true
  | _ => false

end PathPart

namespace Path

/-- The parts of a path. -/
def parts (path : List Char) : List PathPart :=
  let pieces := Text.splitOn '/' path
  let rest := pieces.filterMap PathPart.ofPiece?
  match path, pieces with
  | '/' :: _, _ => .root :: rest
  | _, ['.'] :: _ => .here :: rest
  | _, _ => rest

/-- Whether a path can only name a directory. -/
def endsOpen (path : List Char) : Bool :=
  match path.reverse with
  | '/' :: _ => true
  | '.' :: '/' :: _ => true
  | _ => false

/-- Whether the last piece of a path is a dot, with or without slashes behind it. -/
def endsInDot (path : List Char) : Bool :=
  ((Text.splitOn '/' path).filter (· ≠ [])).getLast? = some ['.']

/-- The greatest size of a name in bytes. -/
def maxNameSize : Nat := 255

/-- A path followed by another, which replaces it if it is absolute. -/
def join (base path : List Char) : List Char :=
  if path.head? = some '/' || base = [] then path
  else if base.getLast? = some '/' then base ++ path
  else base ++ '/' :: path

/-- Whether a path is a single name. -/
def isName (path : List Char) : Bool :=
  match parts path with
  | [.name _] => true
  | _ => false

/-- Whether a path is made of names only, so that it cannot leave a directory. -/
def staysBelow (path : List Char) : Bool := (parts path).all PathPart.isName

/-- The pieces of a path between slashes, the last one first, without those at the end that mean
nothing. -/
def piecesBack (path : List Char) : List (List Char) :=
  (Text.splitOn '/' path).reverse.dropWhile fun piece => piece = [] || piece = ['.']

/-- The path of the directory in which a path ends. -/
def parent (path : List Char) : List Char :=
  match piecesBack path with
  | [] => []
  | _ :: before => if before = [[]] then ['/'] else List.intercalate ['/'] before.reverse

/-- A name up to its last dot, unless it starts with that. -/
def stem (name : List Char) : List Char :=
  match name.reverse.dropWhile (· ≠ '.') with
  | '.' :: c :: rest => (c :: rest).reverse
  | _ => name

/-- The path with this extension in place of its own one. A path that does not end with a name stays
as it is. -/
def withExtension (extension path : List Char) : List Char :=
  match piecesBack path with
  | [] => path
  | last :: before =>
    if last = ['.', '.'] then path
    else List.intercalate ['/'] ((stem last ++ '.' :: extension) :: before).reverse

end Path

end Reckoner
