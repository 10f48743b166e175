/-
Where paths lead if nothing but their text counts.

* `Path.location` — the place of a path: empty pieces and dots are dropped, and two dots take away
  the name in front of them. `Location.below` — a place some names further.
* `Path.Strays` — absolute paths, paths that start with a dot, and paths with two dots in them;
  `Path.staysBelow_iff` — all others are made of names only.
* `Path.location_join` — a path followed by another one leads on from where the first one leads.
* `Path.location_join_below` — **a path of names leads below the place in front of it**.
-/

import Reckoner.Proofs.Files.Spellings

namespace Reckoner

namespace Path

/-! ### Places -/

/-- A place: the names on the way from the top, or from where one stands. On a way from where one
stands, two dots are left if there is no name in front of them. -/
structure Location where
  absolute : Bool
  way : List (List Char)

namespace Location

/-- The place that some names lead to. -/
def below (location : Location) (names : List (List Char)) : Location :=
  { location with way := location.way ++ names }

/-- The place around a place. Nothing is around the top. -/
def around (location : Location) : Location :=
  match location.way.getLast? with
  | none => if location.absolute then location else location.below [['.', '.']]
  | some last =>
    if last = ['.', '.'] then location.below [['.', '.']]
    else { location with way := location.way.dropLast }

/-- The place that a piece between slashes leads to. -/
def enter (location : Location) (piece : List Char) : Location :=
  if piece = [] ∨ piece = ['.'] then location
  else if piece = ['.', '.'] then location.around
  else location.below [piece]

theorem below_below (location : Location) (first second : List (List Char)) :
    (location.below first).below second = location.below (first ++ second) := by
  unfold below
  rw [List.append_assoc]

end Location

/-- Where a path leads, read from its text alone. -/
def location (path : List Char) : Location :=
  (Text.splitOn '/' path).foldl Location.enter ⟨decide (path.head? = some '/'), []⟩

/-- **A path followed by another one leads on from where the first one leads**, if the other one is
not absolute. -/
theorem location_join (base : List Char) {path : List Char} (relative : path.head? ≠ some '/') :
    location (join base path) = (Text.splitOn '/' path).foldl Location.enter (location base) := by
  by_cases empty : base = []
  · subst empty
    have alone : join [] path = path := by simp [join]
    have start : location [] = ⟨false, []⟩ := rfl
    rw [alone, start, location, decide_eq_false relative]
  have first {front : List Char} (some : front ≠ []) (rest : List Char) :
      (front ++ '/' :: rest).head? = front.head? := by
    obtain ⟨c, more, rfl⟩ := List.exists_cons_of_ne_nil some
    rfl
  unfold join
  rw [if_neg (by simp [relative, empty])]
  split
  · next closed =>
    obtain ⟨front, rfl⟩ := List.getLast?_eq_some_iff.mp closed
    rw [List.append_assoc, List.singleton_append]
    unfold location
    rw [Text.splitOn_append, Text.splitOn_append, List.foldl_append, List.foldl_append]
    by_cases bare : front = []
    · subst bare
      rfl
    · rw [first bare path, first bare []]
      rfl
  · unfold location
    rw [Text.splitOn_append, List.foldl_append, first empty path]

/-! ### Paths of names -/

/-- Whether a piece of a path is the name of something below the place in front of it. -/
structure IsPlain (piece : List Char) : Prop where
  nonempty : piece ≠ []
  not_here : piece ≠ ['.']
  not_parent : piece ≠ ['.', '.']
  undivided : '/' ∉ piece

/-- Whether a path may lead out of the place in front of it, or is not written as a way from
there. -/
def Strays (path : List Char) : Prop :=
  path.head? = some '/' ∨ ['.', '.'] ∈ Text.splitOn '/' path ∨
    (Text.splitOn '/' path).head? = some ['.']

theorem ofPiece?_eq_parent {piece : List Char} :
    PathPart.ofPiece? piece = some .parent ↔ piece = ['.', '.'] := by
  constructor
  · intro found
    unfold PathPart.ofPiece? at found
    split at found
    · cases found
    · split at found
      · next parent => exact parent
      · cases found
  · rintro rfl
    rfl

theorem ofPiece?_eq_name {piece name : List Char}
    (found : PathPart.ofPiece? piece = some (.name name)) :
    piece = name ∧ ¬(piece = [] ∨ piece = ['.']) ∧ piece ≠ ['.', '.'] := by
  unfold PathPart.ofPiece? at found
  split at found
  · cases found
  · next some =>
    split at found
    · cases found
    · next down =>
      cases found
      exact ⟨rfl, by simpa using some, down⟩

/-- Pieces stand for names or for two dots. -/
theorem isName_of_ofPiece?_eq_some {piece : List Char} {part : PathPart}
    (found : PathPart.ofPiece? piece = some part) (down : piece ≠ ['.', '.']) : part.isName := by
  unfold PathPart.ofPiece? at found
  rw [if_neg down] at found
  split at found
  · cases found
  · cases found
    rfl

/-- **A path is made of names only unless it strays.** -/
theorem staysBelow_iff {path : List Char} : staysBelow path ↔ ¬Strays path := by
  have inner : (innerParts path).all PathPart.isName ↔ ['.', '.'] ∉ Text.splitOn '/' path := by
    rw [List.all_eq_true]
    constructor
    · intro named member
      cases named _ (List.mem_filterMap.mpr ⟨_, member, ofPiece?_eq_parent.mpr rfl⟩)
    · intro absent part member
      obtain ⟨piece, among, found⟩ := List.mem_filterMap.mp member
      exact isName_of_ofPiece?_eq_some found fun parent => absent (parent ▸ among)
  unfold staysBelow Strays
  rw [parts_eq, List.all_append, Bool.and_eq_true, inner, lead]
  split
  · next absolute => simp [absolute, PathPart.isName]
  · next relative =>
    split
    · next here => simp [here, PathPart.isName]
    · next plain => simp [relative, plain]

theorem staysBelow_of_isName {path : List Char} (single : isName path) : staysBelow path := by
  unfold isName at single
  split at single
  · next name whole => simp [staysBelow, whole, PathPart.isName]
  · cases single

/-- Pieces that stand for names are entered one after the other. -/
theorem foldl_enter {pieces names : List (List Char)}
    (named : pieces.filterMap PathPart.ofPiece? = names.map .name) (location : Location) :
    pieces.foldl Location.enter location = location.below names := by
  induction pieces generalizing names location with
  | nil =>
    obtain rfl := List.map_eq_nil_iff.mp named.symm
    simp [Location.below]
  | cons piece rest ih =>
    rw [List.foldl_cons]
    cases found : PathPart.ofPiece? piece with
    | none =>
      rw [List.filterMap_cons_none found] at named
      have stays : location.enter piece = location := if_pos (piece_of_ofPiece?_eq_none found)
      rw [stays, ih named]
    | some part =>
      rw [List.filterMap_cons_some found] at named
      obtain ⟨name, more, rfl, rfl, later⟩ := List.map_eq_cons_iff.mp named.symm
      obtain ⟨rfl, some, down⟩ := ofPiece?_eq_name found
      have enters : location.enter piece = location.below [piece] := by
        rw [Location.enter, if_neg some, if_neg down]
      rw [enters, ih later.symm, Location.below_below]
      rfl

/-- A path that does not stray has the names that its pieces stand for. -/
theorem exists_names {path : List Char} (below : staysBelow path) :
    ∃ names : List (List Char), (∀ name ∈ names, IsPlain name) ∧ parts path = names.map .name ∧
      path.head? ≠ some '/' ∧ innerParts path = names.map .name := by
  obtain ⟨names, whole⟩ : ∃ names : List (List Char), parts path = names.map .name := by
    unfold staysBelow at below
    generalize parts path = list at below ⊢
    induction list with
    | nil => exact ⟨[], rfl⟩
    | cons part rest ih =>
      rw [List.all_cons, Bool.and_eq_true] at below
      obtain ⟨names, later⟩ := ih below.2
      cases part with
      | name name => exact ⟨name :: names, by rw [later]; rfl⟩
      | _ => cases below.1
  have relative : path.head? ≠ some '/' := fun absolute => staysBelow_iff.mp below (.inl absolute)
  have inner : innerParts path = names.map .name := by
    have plain : (Text.splitOn '/' path).head? ≠ some ['.'] := fun here =>
      staysBelow_iff.mp below (.inr (.inr here))
    rwa [parts_eq, lead, if_neg relative, if_neg plain, List.nil_append] at whole
  refine ⟨names, fun name member => ?_, whole, relative, inner⟩
  have listed : PathPart.name name ∈ innerParts path := by
    rw [inner]
    exact List.mem_map_of_mem member
  obtain ⟨piece, among, found⟩ := List.mem_filterMap.mp listed
  obtain ⟨rfl, some, down⟩ := ofPiece?_eq_name found
  rw [not_or] at some
  exact ⟨some.1, some.2, down, Text.not_mem_of_mem_splitOn among⟩

/-- **A path of names leads below the place in front of it**, whatever is in front. -/
theorem location_join_below {path : List Char} (below : staysBelow path) :
    ∃ names : List (List Char), (∀ name ∈ names, IsPlain name) ∧ parts path = names.map .name ∧
      ∀ base, location (join base path) = (location base).below names := by
  obtain ⟨names, plain, whole, relative, inner⟩ := exists_names below
  exact ⟨names, plain, whole, fun base => by rw [location_join base relative, foldl_enter inner]⟩

/-- A single name leads one step down. -/
theorem location_join_name {path : List Char} (single : isName path) :
    ∃ name, IsPlain name ∧ parts path = [.name name] ∧
      ∀ base, location (join base path) = (location base).below [name] := by
  obtain ⟨names, plain, whole, leads⟩ := location_join_below (staysBelow_of_isName single)
  obtain ⟨name, -, -, -, -, -, alone⟩ := exists_of_isName single
  rw [whole] at alone
  obtain rfl : names = [name] := (List.map_inj_right fun _ _ => PathPart.name.inj).mp alone
  exact ⟨name, plain name List.mem_cons_self, whole, leads⟩

end Path

end Reckoner
