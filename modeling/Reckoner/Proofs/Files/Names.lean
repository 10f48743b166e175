/-
What is found below a directory.

* `Path.parts_join` — a path followed by a name has the parts of the path and the name.
* `FileTree.follow_append` — parts are followed one after the other.
* `FileTree.mem_names_of_isFile` — **a directory lists every name below it that leads to a file.**
-/

import Reckoner.Files.Tree
import Reckoner.Proofs.Outcome

namespace Reckoner

/-! ### Pieces between slashes -/

namespace Text

theorem splitOn_ne_nil (separator : Char) (text : List Char) : splitOn separator text ≠ [] := by
  cases text with
  | nil => nofun
  | cons c rest =>
    unfold splitOn
    split
    · nofun
    · split <;> nofun

/-- The pieces of two texts with a separator between them. -/
theorem splitOn_append (separator : Char) (before after : List Char) :
    splitOn separator (before ++ separator :: after) =
      splitOn separator before ++ splitOn separator after := by
  induction before with
  | nil => simp [splitOn]
  | cons c rest ih =>
    by_cases same : c = separator
    · simp [splitOn, same, ih]
    · cases pieces : splitOn separator rest with
      | nil => exact absurd pieces (splitOn_ne_nil separator rest)
      | cons piece others => simp [splitOn, same, ih, pieces]

/-- A text without a separator is a single piece. -/
theorem splitOn_of_not_mem {separator : Char} {text : List Char} (absent : separator ∉ text) :
    splitOn separator text = [text] := by
  induction text with
  | nil => rfl
  | cons c rest ih =>
    rw [List.mem_cons, not_or] at absent
    simp [splitOn, Ne.symm absent.1, ih absent.2]

end Text

/-! ### Parts of paths -/

namespace Path

/-- The parts that the pieces of a path stand for behind a slash. -/
def innerParts (path : List Char) : List PathPart :=
  (Text.splitOn '/' path).filterMap PathPart.ofPiece?

/-- The slash of an absolute path, or a dot at the start of another one. -/
def lead (path : List Char) : List PathPart :=
  if path.head? = some '/' then [.root]
  else if (Text.splitOn '/' path).head? = some ['.'] then [.here]
  else []

theorem head?_ne_of_forall {α : Type} {list : List α} {a : α}
    (other : ∀ tail, list = a :: tail → False) : list.head? ≠ some a := by
  intro first
  obtain ⟨tail, same⟩ := List.head?_eq_some_iff.mp first
  exact other tail same

theorem parts_eq (path : List Char) : parts path = lead path ++ innerParts path := by
  unfold parts lead innerParts
  simp only
  split
  · rfl
  · next relative dot => simp [head?_ne_of_forall relative, dot]
  · next relative plain => simp [head?_ne_of_forall relative, head?_ne_of_forall plain]

theorem innerParts_append (before after : List Char) :
    innerParts (before ++ '/' :: after) = innerParts before ++ innerParts after := by
  unfold innerParts
  rw [Text.splitOn_append, List.filterMap_append]

theorem lead_append {base : List Char} (nonempty : base ≠ []) (path : List Char) :
    lead (base ++ '/' :: path) = lead base := by
  unfold lead
  rw [Text.splitOn_append, List.head?_append, List.head?_append]
  obtain ⟨c, rest, rfl⟩ := List.exists_cons_of_ne_nil nonempty
  obtain ⟨piece, others, pieces⟩ :=
    List.exists_cons_of_ne_nil (Text.splitOn_ne_nil '/' (c :: rest))
  rw [pieces]
  rfl

theorem parts_append {base : List Char} (nonempty : base ≠ []) (path : List Char) :
    parts (base ++ '/' :: path) = parts base ++ innerParts path := by
  rw [parts_eq, parts_eq, lead_append nonempty, innerParts_append, List.append_assoc]

/-- **A path followed by another one has the parts of both**, if the other one is not absolute. -/
theorem parts_join {base path : List Char} (nonempty : base ≠ []) (relative : path.head? ≠ some '/') :
    parts (join base path) = parts base ++ innerParts path := by
  unfold join
  rw [if_neg (by simp [relative, nonempty])]
  split
  · next closed =>
    obtain ⟨init, rfl⟩ := List.getLast?_eq_some_iff.mp closed
    rw [List.append_assoc, List.singleton_append]
    by_cases bare : init = []
    · simp [bare, parts_eq, lead, innerParts, Text.splitOn, PathPart.ofPiece?]
    · rw [parts_append bare, parts_append bare]
      simp [innerParts, Text.splitOn, PathPart.ofPiece?]
  · exact parts_append nonempty path

/-- A single name without a slash is the part that it names. -/
theorem innerParts_of_isName {name : List Char} (isName : isName name) (plain : '/' ∉ name) :
    innerParts name = [.name name] := by
  rw [innerParts, Text.splitOn_of_not_mem plain]
  by_cases empty : name = []
  · rw [empty] at isName
    cases isName
  · by_cases dot : name = ['.']
    · rw [dot] at isName
      cases isName
    · by_cases parent : name = ['.', '.']
      · rw [parent] at isName
        cases isName
      · simp [PathPart.ofPiece?, empty, dot, parent]

theorem parts_join_name {base name : List Char} (nonempty : base ≠ []) (isName : isName name)
    (plain : '/' ∉ name) : parts (join base name) = parts base ++ [.name name] := by
  rw [parts_join nonempty, innerParts_of_isName isName plain]
  intro absolute
  obtain ⟨tail, rfl⟩ := List.head?_eq_some_iff.mp absolute
  exact plain List.mem_cons_self

theorem subset_join {base path : List Char} (relative : '/' ∉ path) : base ⊆ join base path := by
  unfold join
  split
  · next replaced =>
    rcases Bool.or_eq_true_iff.mp replaced with absolute | empty
    · obtain ⟨tail, rfl⟩ := List.head?_eq_some_iff.mp (of_decide_eq_true absolute)
      exact absurd List.mem_cons_self relative
    · rw [of_decide_eq_true empty]
      exact List.nil_subset _
  · split <;> exact List.subset_append_left _ _

end Path

/-! ### Directories -/

namespace FileTree

variable {tree : FileTree} {trail stop : Trail}

theorem follow_cons (part : PathPart) (rest : List PathPart) :
    tree.follow trail (part :: rest) = tree.follow trail [part] >>= (tree.follow · rest) := by
  simp only [follow]
  split
  · rfl
  · rfl
  · split
    · rfl
    · rfl
    · rfl
    · split <;> rfl

/-- **Parts are followed one after the other.** -/
theorem follow_append (first second : List PathPart) :
    tree.follow trail (first ++ second) =
      tree.follow trail first >>= (tree.follow · second) := by
  induction first generalizing trail with
  | nil => rfl
  | cons part rest ih =>
    rw [List.cons_append, follow_cons, follow_cons part rest, bind_assoc]
    simp only [ih]

/-- A name is followed in a directory. -/
theorem follow_name {name : List Char} {rest : List PathPart}
    (followed : tree.follow trail (.name name :: rest) = .ok stop) :
    tree.node? trail = some .directory ∧ tree.follow (trail ++ [name]) rest = .ok stop := by
  rw [follow] at followed
  split at followed
  · cases followed
  · cases followed
  · next found =>
    split at followed
    · cases followed
    · exact ⟨found, followed⟩

/-- A file is at the end of a path that can be followed. -/
theorem exists_of_isFile {path : List Char} (isFile : tree.isFile path) :
    ∃ trail text, tree.resolve path = .ok trail ∧ tree.node? trail = some (.file text) := by
  unfold FileTree.isFile at isFile
  split at isFile
  · next text read =>
    obtain ⟨node, found, isText⟩ := bind_eq_ok.mp read
    obtain ⟨trail, resolved, stands⟩ := bind_eq_ok.mp found
    cases node with
    | directory => cases isText
    | file content =>
      split at stands
      · cases stands
      · next text file => exact ⟨trail, text, resolved, file⟩
      · cases stands
  · cases isFile

/-- A file is one of the entries. -/
theorem mem_entries_of_file {text : String} (found : tree.node? trail = some (.file text)) :
    (trail, .file text) ∈ tree.entries := by
  unfold node? at found
  split at found
  · cases found
  · split at found
    · next node listed =>
      cases found
      obtain ⟨before, after, entries, -⟩ := List.lookup_eq_some_iff.mp listed
      rw [entries]
      exact List.mem_append_right _ List.mem_cons_self
    · split at found <;> cases found

/-- What is found at a path. -/
theorem resolve_eq_ok {path : List Char} :
    tree.resolve path = .ok trail ↔
      '\x00' ∉ path ∧ path ≠ [] ∧ tree.follow [] (Path.parts path) = .ok trail := by
  unfold resolve
  by_cases zero : '\x00' ∈ path
  · simp [zero]
  · by_cases empty : path = []
    · simp [empty]
    · simp [zero, empty]

/-- The names in a directory that has been found. -/
theorem names_of_resolve {path : List Char} (resolved : tree.resolve path = .ok trail)
    (directory : tree.node? trail = some .directory) :
    tree.names path = .ok (.ofList (tree.entries.filterMap fun (other, _) =>
      if trail.isPrefixOf other then (other.drop trail.length).head?.map String.ofList
      else none) compare) := by
  unfold names
  rw [resolved]
  simp only [bind, Except.bind, directory]

/-- **A directory lists every name below it that leads to a file.** -/
theorem mem_names_of_isFile {base name file : List Char} (nonempty : base ≠ [])
    (isName : Path.isName name) (plain : '/' ∉ name) (isFileName : Path.isName file)
    (plainFile : '/' ∉ file) (isFile : tree.isFile (Path.join (Path.join base name) file)) :
    ∃ names, tree.names base = .ok names ∧ String.ofList name ∈ names := by
  obtain ⟨trail, text, resolved, stands⟩ := exists_of_isFile isFile
  obtain ⟨readable, -, followed⟩ := resolve_eq_ok.mp resolved
  have joined : Path.join base name ≠ [] := fun empty =>
    nonempty (List.subset_nil.mp (empty ▸ Path.subset_join plain))
  rw [Path.parts_join_name joined isFileName plainFile, Path.parts_join_name nonempty isName plain,
    List.append_assoc, follow_append] at followed
  obtain ⟨stop, atBase, below⟩ := bind_eq_ok.mp followed
  obtain ⟨directory, below⟩ := follow_name below
  obtain ⟨-, below⟩ := follow_name below
  cases below
  have baseResolved : tree.resolve base = .ok stop := by
    refine resolve_eq_ok.mpr ⟨fun zero => readable ?_, nonempty, atBase⟩
    exact Path.subset_join plainFile (Path.subset_join plain zero)
  refine ⟨_, names_of_resolve baseResolved directory, ?_⟩
  rw [Std.ExtTreeSet.mem_ofList, List.contains_iff_mem, List.mem_filterMap]
  exact ⟨_, mem_entries_of_file stands, by simp⟩

end FileTree

end Reckoner
