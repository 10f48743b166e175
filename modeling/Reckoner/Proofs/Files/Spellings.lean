/-
Paths that are spelled differently and lead to the same place.

* `Text.exists_of_splitOn`, `Text.mem_splitOn` — a text and its pieces.
* `Path.Slack`, `Path.exists_of_isName` — **a path that is a single name is the name, with nothing
  but slashes and dots behind it.**
* `FileTree.read_congr` — **paths with the same parts are read alike.**
* `FileTree.PlainNames` — trees whose names have no slash. A directory lists such names only.
-/

import Reckoner.Proofs.Files.Names

namespace Reckoner

/-! ### Pieces between slashes -/

namespace Text

variable {separator : Char} {text : List Char}

/-- The first piece ends at the end of the text or at the first separator. -/
theorem exists_of_splitOn {piece : List Char} {pieces : List (List Char)}
    (split : splitOn separator text = piece :: pieces) :
    separator ∉ piece ∧ ((text = piece ∧ pieces = []) ∨
      ∃ rest, text = piece ++ separator :: rest ∧ splitOn separator rest = pieces) := by
  induction text generalizing piece with
  | nil =>
    cases split
    exact ⟨List.not_mem_nil, .inl ⟨rfl, rfl⟩⟩
  | cons c rest ih =>
    rw [splitOn] at split
    split at split
    · next same =>
      cases split
      exact ⟨List.not_mem_nil, .inr ⟨rest, by rw [same]; rfl, rfl⟩⟩
    · next different =>
      obtain ⟨first, others, tail⟩ := List.exists_cons_of_ne_nil (splitOn_ne_nil separator rest)
      rw [tail] at split
      cases split
      obtain ⟨absent, whole⟩ := ih tail
      refine ⟨List.not_mem_cons_of_ne_of_not_mem (Ne.symm different) absent, ?_⟩
      rcases whole with ⟨rfl, none⟩ | ⟨after, rfl, pieces⟩
      · exact .inl ⟨rfl, none⟩
      · exact .inr ⟨after, rfl, pieces⟩

theorem not_mem_of_mem_splitOn {piece : List Char} (member : piece ∈ splitOn separator text) :
    separator ∉ piece := by
  generalize split : splitOn separator text = pieces at member
  induction pieces generalizing text with
  | nil => cases member
  | cons first others ih =>
    obtain ⟨absent, ends⟩ := exists_of_splitOn split
    rcases List.mem_cons.mp member with rfl | later
    · exact absent
    · rcases ends with ⟨-, rfl⟩ | ⟨rest, -, tail⟩
      · cases later
      · exact ih tail later

/-- The characters of a text are separators or stand in a piece. -/
theorem mem_splitOn {c : Char} (member : c ∈ text) :
    c = separator ∨ ∃ piece ∈ splitOn separator text, c ∈ piece := by
  induction text with
  | nil => cases member
  | cons first rest ih =>
    rw [splitOn]
    split
    · next same =>
      rcases List.mem_cons.mp member with rfl | later
      · exact .inl same
      · rcases ih later with here | ⟨piece, among, inside⟩
        · exact .inl here
        · exact .inr ⟨piece, List.mem_cons_of_mem _ among, inside⟩
    · obtain ⟨piece, others, tail⟩ := List.exists_cons_of_ne_nil (splitOn_ne_nil separator rest)
      rw [tail] at ih ⊢
      rcases List.mem_cons.mp member with rfl | later
      · exact .inr ⟨_, List.mem_cons_self, List.mem_cons_self⟩
      · rcases ih later with here | ⟨other, among, inside⟩
        · exact .inl here
        · rcases List.mem_cons.mp among with rfl | behind
          · exact .inr ⟨_, List.mem_cons_self, List.mem_cons_of_mem _ inside⟩
          · exact .inr ⟨other, List.mem_cons_of_mem _ behind, inside⟩

end Text

/-! ### Single names -/

namespace Path

/-- What means nothing behind a name: slashes with dots between them. -/
def Slack (tail : List Char) : Prop := tail = [] ∨ ∃ rest, tail = '/' :: rest ∧ innerParts rest = []

theorem piece_of_ofPiece?_eq_none {piece : List Char} (nothing : PathPart.ofPiece? piece = none) :
    piece = [] ∨ piece = ['.'] := by
  unfold PathPart.ofPiece? at nothing
  split at nothing
  · next empty => simpa using empty
  · split at nothing <;> cases nothing

/-- A path that means nothing has slashes and dots only. -/
theorem mem_of_innerParts_eq_nil {path : List Char} (none : innerParts path = []) {c : Char}
    (member : c ∈ path) : c = '/' ∨ c = '.' := by
  rcases Text.mem_splitOn member with slash | ⟨piece, among, inside⟩
  · exact .inl slash
  · rcases piece_of_ofPiece?_eq_none (List.filterMap_eq_nil_iff.mp none piece among) with rfl | rfl
    · cases inside
    · exact .inr (List.mem_singleton.mp inside)

theorem Slack.mem {tail : List Char} (slack : Slack tail) {c : Char} (member : c ∈ tail) :
    c = '/' ∨ c = '.' := by
  rcases slack with rfl | ⟨rest, rfl, none⟩
  · cases member
  · rcases List.mem_cons.mp member with slash | later
    · exact .inl slash
    · exact mem_of_innerParts_eq_nil none later

/-- A name without a slash is a single name, with slack behind it. -/
theorem innerParts_append_slack {name tail : List Char} (slack : Slack tail) :
    innerParts (name ++ tail) = innerParts name := by
  rcases slack with rfl | ⟨rest, rfl, none⟩
  · rw [List.append_nil]
  · rw [innerParts_append, none, List.append_nil]

/-- A path of a name has nothing in front of it. -/
theorem lead_eq_nil {path : List Char} {name : List Char} (whole : parts path = [.name name]) :
    path.head? ≠ some '/' ∧ (Text.splitOn '/' path).head? ≠ some ['.'] ∧
      innerParts path = [.name name] := by
  rw [parts_eq] at whole
  unfold lead at whole
  split at whole
  · cases whole
  · next relative =>
    split at whole
    · cases whole
    · next plain => exact ⟨relative, plain, whole⟩

theorem head?_ne_of_not_mem {path : List Char} (absent : '/' ∉ path) : path.head? ≠ some '/' :=
  fun first => absent (List.mem_of_mem_head? first)

/-- A piece that is a name stands for itself. -/
theorem isName_of_ofPiece? {piece name : List Char} (absent : '/' ∉ piece)
    (found : PathPart.ofPiece? piece = some (.name name)) : piece = name ∧ isName name := by
  unfold PathPart.ofPiece? at found
  split at found
  · cases found
  · next some =>
    split at found
    · cases found
    · next notParent =>
      cases found
      simp only [Bool.or_eq_true, decide_eq_true_eq, not_or] at some
      refine ⟨rfl, ?_⟩
      rw [isName, parts_eq, lead, innerParts, Text.splitOn_of_not_mem absent,
        if_neg (head?_ne_of_not_mem absent), if_neg (by simp [some.2])]
      simp [PathPart.ofPiece?, some, notParent]

/-- **A path that is a single name is the name, with nothing but slashes and dots behind it.** -/
theorem exists_of_isName {path : List Char} (single : isName path) :
    ∃ name tail, path = name ++ tail ∧ Slack tail ∧ '/' ∉ name ∧ isName name ∧
      parts path = [.name name] := by
  unfold isName at single
  split at single
  · next name whole =>
    obtain ⟨relative, plain, inner⟩ := lead_eq_nil whole
    obtain ⟨piece, pieces, split⟩ := List.exists_cons_of_ne_nil (Text.splitOn_ne_nil '/' path)
    obtain ⟨absent, ends⟩ := Text.exists_of_splitOn split
    rw [innerParts, split, List.filterMap_cons] at inner
    rw [split, List.head?_cons] at plain
    -- The first piece is no dot and does not end at a slash in front, so it is the name.
    cases found : PathPart.ofPiece? piece with
    | none =>
      rcases piece_of_ofPiece?_eq_none found with rfl | rfl
      · rcases ends with ⟨rfl, rfl⟩ | ⟨rest, rfl, -⟩
        · cases inner
        · exact absurd rfl relative
      · exact absurd rfl plain
    | some part =>
      rw [found] at inner
      obtain ⟨rfl, none⟩ := List.cons.inj inner
      obtain ⟨rfl, isName⟩ := isName_of_ofPiece? absent found
      rcases ends with ⟨rfl, -⟩ | ⟨rest, rfl, pieces⟩
      · exact ⟨_, [], (List.append_nil _).symm, .inl rfl, absent, isName, whole⟩
      · exact ⟨_, _, rfl, .inr ⟨rest, rfl, by rw [innerParts, pieces, none]⟩, absent, isName, whole⟩
  · cases single

/-- A path that another one follows ends before a slash. -/
theorem exists_join {base path : List Char} (nonempty : base ≠ []) (relative : path.head? ≠ some '/') :
    ∃ front, join base path = front ++ '/' :: path ∧
      ∀ c, c ≠ '/' → (c ∈ front ↔ c ∈ base) := by
  unfold join
  rw [if_neg (by simp [relative, nonempty])]
  split
  · next closed =>
    obtain ⟨front, rfl⟩ := List.getLast?_eq_some_iff.mp closed
    exact ⟨front, by simp, fun c other => by simp [other]⟩
  · exact ⟨base, rfl, fun c _ => Iff.rfl⟩

theorem mem_join {base path : List Char} (nonempty : base ≠ []) (relative : path.head? ≠ some '/')
    {c : Char} (other : c ≠ '/') : c ∈ join base path ↔ c ∈ base ∨ c ∈ path := by
  obtain ⟨front, joined, same⟩ := exists_join nonempty relative
  rw [joined, List.mem_append, List.mem_cons, same c other]
  simp only [other, false_or]

theorem join_ne_nil {base path : List Char} (nonempty : base ≠ [])
    (relative : path.head? ≠ some '/') : join base path ≠ [] := by
  obtain ⟨front, joined, -⟩ := exists_join nonempty relative
  simp [joined]

/-- The names in a path have no slash. -/
theorem not_mem_of_name_mem_parts {path name : List Char} (member : .name name ∈ parts path) :
    '/' ∉ name := by
  have inner : .name name ∈ innerParts path := by
    rw [parts_eq] at member
    rcases List.mem_append.mp member with front | inside
    · unfold lead at front
      split at front
      · simp at front
      · split at front <;> simp at front
    · exact inside
  obtain ⟨piece, among, found⟩ := List.mem_filterMap.mp inner
  have absent := Text.not_mem_of_mem_splitOn among
  rwa [(isName_of_ofPiece? absent found).1] at absent

/-- Whether a path can only name a directory shows behind its last slash. -/
theorem endsOpen_append (front path : List Char) :
    endsOpen (front ++ '/' :: path) = endsOpen ('/' :: path) := by
  unfold endsOpen
  rw [List.reverse_append, List.reverse_cons, List.append_assoc]
  match path.reverse with
  | [] => rfl
  | [c] => by_cases dot : c = '.' <;> by_cases slash : c = '/' <;> simp [dot, slash]
  | c :: d :: rest =>
    by_cases slash : c = '/'
    · simp [slash]
    · by_cases dot : c = '.' <;> by_cases behind : d = '/' <;> simp [slash, dot, behind]

end Path

/-! ### Files -/

namespace FileTree

variable {tree : FileTree}

/-- **Paths with the same parts are read alike.** -/
theorem read_congr {path other : List Char} (zero : '\x00' ∈ path ↔ '\x00' ∈ other)
    (empty : path = [] ↔ other = []) (parts : Path.parts path = Path.parts other)
    (ends : Path.endsOpen path = Path.endsOpen other) : tree.read path = tree.read other := by
  have resolved : tree.resolve path = tree.resolve other := by
    simp only [resolve, zero, List.isEmpty_iff, empty, parts]
  unfold read find
  rw [resolved, ends]

/-- **Slashes and dots behind a name on the way make no difference.** -/
theorem read_join_slack {base name tail file : List Char} (nonempty : base ≠ [])
    (single : Path.isName name) (plain : '/' ∉ name) (slack : Path.Slack tail)
    (relative : file.head? ≠ some '/') :
    tree.read (Path.join (Path.join base (name ++ tail)) file) =
      tree.read (Path.join (Path.join base name) file) := by
  have front : name.head? ≠ some '/' := Path.head?_ne_of_not_mem plain
  have behind : (name ++ tail).head? ≠ some '/' := by
    cases name with
    | nil => cases single
    | cons c rest => exact front
  have zeroTail : '\x00' ∉ tail := fun member => by
    rcases slack.mem member with same | same <;> cases same
  have left := Path.join_ne_nil nonempty behind
  have right := Path.join_ne_nil nonempty front
  refine read_congr ?_ ?_ ?_ ?_
  · rw [Path.mem_join left relative (by decide), Path.mem_join nonempty behind (by decide),
      Path.mem_join right relative (by decide), Path.mem_join nonempty front (by decide),
      List.mem_append, or_iff_left zeroTail]
  · exact iff_of_false (Path.join_ne_nil left relative) (Path.join_ne_nil right relative)
  · rw [Path.parts_join left relative, Path.parts_join nonempty behind,
      Path.parts_join right relative, Path.parts_join nonempty front,
      Path.innerParts_append_slack slack]
  · obtain ⟨first, joined, -⟩ := Path.exists_join left relative
    obtain ⟨second, other, -⟩ := Path.exists_join right relative
    rw [joined, other, Path.endsOpen_append, Path.endsOpen_append]

/-- Whether no name in a tree has a slash. -/
def PlainNames (tree : FileTree) : Prop := ∀ entry ∈ tree.entries, ∀ name ∈ entry.1, '/' ∉ name

theorem plainNames_ofTexts (texts : List (String × String)) : (ofTexts texts).PlainNames := by
  intro entry among name inside
  obtain ⟨source, -, rfl⟩ := List.mem_map.mp among
  obtain ⟨part, isPart, named⟩ := List.mem_filterMap.mp inside
  split at named
  · cases named
    exact Path.not_mem_of_name_mem_parts isPart
  · cases named

/-- A directory lists names that are in the tree. -/
theorem exists_of_mem_names {path : List Char} {names : NameSet} {listed : String}
    (found : tree.names path = .ok names) (member : listed ∈ names) :
    ∃ entry ∈ tree.entries, ∃ name ∈ entry.1, listed = String.ofList name := by
  unfold FileTree.names at found
  obtain ⟨trail, -, stands⟩ := bind_eq_ok.mp found
  split at stands
  · cases stands
  · cases stands
  · cases stands
    rw [Std.ExtTreeSet.mem_ofList, List.contains_iff_mem, List.mem_filterMap] at member
    obtain ⟨entry, among, below⟩ := member
    obtain ⟨-, below⟩ := Option.ite_none_right_eq_some.mp below
    obtain ⟨name, first, rfl⟩ := Option.map_eq_some_iff.mp below
    exact ⟨entry, among, name, List.mem_of_mem_drop (List.mem_of_mem_head? first), rfl⟩

/-- **A directory lists no name with a slash.** -/
theorem PlainNames.not_mem {path : List Char} {names : NameSet} {listed : String}
    (plain : tree.PlainNames) (found : tree.names path = .ok names) (member : listed ∈ names) :
    '/' ∉ listed.toList := by
  obtain ⟨entry, among, name, inside, rfl⟩ := exists_of_mem_names found member
  rw [String.toList_ofList]
  exact plain entry among name inside

end FileTree

end Reckoner
