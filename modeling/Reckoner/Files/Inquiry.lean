/-
Computations that ask for files.

What such a computation knows of the files is what it has asked for, and it may ask for the next one
depending on that.

* `Inquiry` — a computation that asks for the files at paths, and may fail.
* `Inquiry.result`, `Inquiry.asked` — its result, and the paths that it asks for, if a tree answers.
-/

import Reckoner.Files.Tree

namespace Reckoner

/-- A computation that asks for the files at paths, and may fail. -/
inductive Inquiry (ε α : Type) where
  | done (result : Except ε α)
  | ask (path : List Char) (next : Except FileError String → Inquiry ε α)

namespace Inquiry

variable {ε ε' α β : Type}

/-- Two computations in a row. -/
def bind (first : Inquiry ε α) (next : α → Inquiry ε β) : Inquiry ε β :=
  match first with
  | done (.ok a) => next a
  | done (.error error) => done (.error error)
  | ask path answered => ask path fun answer => (answered answer).bind next

instance : Monad (Inquiry ε) where
  pure a := done (.ok a)
  bind := bind

/-- The computation with another failure. -/
def mapError (f : ε → ε') : Inquiry ε α → Inquiry ε' α
  | done result => done (result.mapError f)
  | ask path next => ask path fun answer => (next answer).mapError f

/-- The result if a tree answers. -/
def result (tree : FileTree) : Inquiry ε α → Except ε α
  | done result => result
  | ask path next => (next (tree.read path)).result tree

/-- The paths that are asked for if a tree answers, in their order. -/
def asked (tree : FileTree) : Inquiry ε α → List (List Char)
  | done _ => []
  | ask path next => path :: (next (tree.read path)).asked tree

end Inquiry

end Reckoner
