/-
Who owns the entries of a table that addons have changed.

* `Contribution.Brings` — an addon brings a symbol under a name, up to precision labels.
* `Installed.Shares` — what an active addon owns and adopted is what it brings, without repeated
  names.
* `Ownership` — every entry of the table comes from the user or has a single owner: an active addon,
  or none for entries that are just being installed or released.
* `Ownership.install`, `Ownership.attach`, `Ownership.detach`, `Ownership.release` — one step for
  each thing that the addons do to the table.
* `Ownership.accept`, `Ownership.releaseAll` — **activating and deactivating an addon keep every
  entry explained.**
-/

import Reckoner.Addon.Workspace
import Reckoner.Proofs.Symbols.Map

namespace Reckoner

/-! ### Equality but for precision labels -/

namespace Symbol

theorem same_refl (a : Symbol) : a.same a := same_iff.mpr rfl

theorem same_symm {a b : Symbol} (equal : a.same b) : b.same a :=
  same_iff.mpr (same_iff.mp equal).symm

theorem same_trans {a b c : Symbol} (first : a.same b) (second : b.same c) : a.same c :=
  same_iff.mpr ((same_iff.mp first).trans (same_iff.mp second))

end Symbol

namespace SymbolTable

theorem holds_iff {table : SymbolTable} {name : String} {symbol : Symbol} :
    table.holds name symbol ↔ ∃ existing, table[name]? = some existing ∧ existing.same symbol := by
  unfold holds
  rw [Option.any_eq_true]

theorem holds_of_getElem? {table : SymbolTable} {name : String} {symbol : Symbol}
    (entry : table[name]? = some symbol) : table.holds name symbol :=
  holds_iff.mpr ⟨symbol, entry, symbol.same_refl⟩

/-- A table holds one symbol under a name, up to precision labels. -/
theorem same_of_holds {table : SymbolTable} {name : String} {a b : Symbol}
    (first : table.holds name a) (second : table.holds name b) : a.same b := by
  obtain ⟨existing, entry, same⟩ := holds_iff.mp first
  obtain ⟨existing', entry', same'⟩ := holds_iff.mp second
  rw [entry] at entry'
  cases entry'
  exact Symbol.same_trans (Symbol.same_symm same) same'

theorem ne_none_of_holds {table : SymbolTable} {name : String} {symbol : Symbol}
    (held : table.holds name symbol) : table[name]? ≠ none := by
  obtain ⟨existing, entry, -⟩ := holds_iff.mp held
  rw [entry]
  nofun

/-- Entries of other names are held as before. -/
theorem holds_congr {table table' : SymbolTable} {name : String} {symbol : Symbol}
    (unchanged : table'[name]? = table[name]?) (held : table.holds name symbol) :
    table'.holds name symbol := by
  unfold holds at held ⊢
  rw [unchanged]
  exact held

end SymbolTable

/-! ### What addons bring -/

/-- The references of the scripts that an addon brings. -/
def Contribution.refs (contribution : Contribution) : List ScriptRef :=
  contribution.scripts.map ScriptContribution.ref

/-- An addon brings a symbol under a name, up to precision labels. -/
def Contribution.Brings (contribution : Contribution) (name : String) (symbol : Symbol) : Prop :=
  ∃ entry ∈ contribution.entries, entry.1 = name ∧ entry.2.same symbol

/-- What an active addon owns and adopted is what it brings, and no name is repeated. -/
structure Installed.Shares (installed : Installed) (contribution : Contribution) : Prop where
  entries : (installed.symbols ++ installed.adopted).Perm contribution.entries
  distinct : (contribution.entries.map Prod.fst).Nodup
  scripts : installed.scripts = contribution.refs

namespace Installed

variable {installed : Installed} {contribution : Contribution}

theorem Shares.mem_of_owned (shares : installed.Shares contribution) {entry : String × Symbol}
    (owned : entry ∈ installed.symbols) : entry ∈ contribution.entries :=
  shares.entries.mem_iff.mp (List.mem_append_left _ owned)

/-- An entry that is taken over was adopted, under the same name and with the same symbol. -/
theorem adopted?_eq_some {name : String} {symbol : Symbol} {own : String × Symbol}
    (found : installed.adopted? name symbol = some own) :
    own ∈ installed.adopted ∧ own.1 = name ∧ own.2.same symbol := by
  have holds := List.find?_some found
  rw [Bool.and_eq_true, decide_eq_true_eq] at holds
  exact ⟨List.mem_of_find?_eq_some found, holds⟩

/-- An addon has adopted what it brings and does not own. -/
theorem Shares.adopted?_ne_none (shares : installed.Shares contribution) {entry : String × Symbol}
    (brought : entry ∈ contribution.entries) (unowned : entry ∉ installed.symbols) {symbol : Symbol}
    (same : entry.2.same symbol) : installed.adopted? entry.1 symbol ≠ Option.none := by
  intro unclaimed
  rcases List.mem_append.mp (shares.entries.mem_iff.mpr brought) with owned | adopted
  · exact unowned owned
  · refine List.find?_eq_none.mp unclaimed entry adopted ?_
    show (decide (entry.1 = entry.1) && entry.2.same symbol) = true
    rw [same, Bool.and_true, decide_eq_true rfl]

/-- Taking over an entry moves it from the adopted ones to the owned ones. -/
theorem Shares.inherit (shares : installed.Shares contribution) {own : String × Symbol}
    (adopted : own ∈ installed.adopted) : (installed.inherit own).Shares contribution where
  entries := by
    show (installed.symbols ++ [own] ++ installed.adopted.erase own).Perm contribution.entries
    rw [List.append_assoc]
    exact ((List.perm_cons_erase adopted).symm.append_left _).trans shares.entries
  distinct := shares.distinct
  scripts := shares.scripts

end Installed

/-! ### Owners -/

/-- An active addon owns the entry of a name. -/
def Owns (active : NameMap Installed) (addon name : String) : Prop :=
  ∃ installed, active[addon]? = some installed ∧ name ∈ installed.symbols.map Prod.fst

/-- **Every entry of the table comes from the user or has a single owner**: an active addon, or none
for the entries in `loose`, which are just being installed or released. -/
structure Ownership (offer : String → Contribution) (user table : SymbolTable)
    (active : NameMap Installed) (loose : List (String × Symbol)) : Prop where
  /-- The user keeps all entries. -/
  kept : ∀ (name : String) (symbol : Symbol),
    user[name]? = some symbol → table[name]? = some symbol
  shares : ∀ (addon : String) (installed : Installed),
    active[addon]? = some installed → installed.Shares (offer addon)
  /-- The table holds what the active addons bring. -/
  held : ∀ (addon : String) (installed : Installed), active[addon]? = some installed →
    ∀ entry ∈ (offer addon).entries, table.holds entry.1 entry.2
  foreign : ∀ addon name, Owns active addon name → user[name]? = none
  single : ∀ addon other name, Owns active addon name → Owns active other name → addon = other
  looseHeld : ∀ entry ∈ loose, table.holds entry.1 entry.2
  looseForeign : ∀ name ∈ loose.map Prod.fst, user[name]? = none
  looseUnowned : ∀ name ∈ loose.map Prod.fst, ∀ addon, ¬ Owns active addon name
  looseDistinct : (loose.map Prod.fst).Nodup
  explained : ∀ name : String, table[name]? ≠ none →
    user[name]? ≠ none ∨ (∃ addon, Owns active addon name) ∨ name ∈ loose.map Prod.fst

namespace Ownership

variable {offer : String → Contribution} {user table : SymbolTable} {active : NameMap Installed}
  {loose : List (String × Symbol)}

/-- The table of the user has no other entries. -/
theorem initial (offer : String → Contribution) (user : SymbolTable) :
    Ownership offer user user ∅ [] := by
  have none (addon : String) : (∅ : NameMap Installed)[addon]? = none :=
    Std.ExtTreeMap.getElem?_empty
  have unowned (addon name : String) : ¬ Owns ∅ addon name := by
    rintro ⟨installed, found, -⟩
    rw [none] at found
    cases found
  refine ⟨fun _ _ entry => entry, fun addon installed found => ?_, fun addon installed found => ?_,
    fun addon name owned => absurd owned (unowned addon name),
    fun addon _ name owned => absurd owned (unowned addon name), nofun, nofun, nofun,
    List.nodup_nil, fun _ some => .inl some⟩
  · rw [none] at found
    cases found
  · rw [none] at found
    cases found

/-- The table holds what an addon owns. -/
theorem ne_none_of_owns (ownership : Ownership offer user table active loose)
    {addon name : String} (owned : Owns active addon name) : table[name]? ≠ none := by
  obtain ⟨installed, found, member⟩ := owned
  obtain ⟨entry, owned, rfl⟩ := List.mem_map.mp member
  exact SymbolTable.ne_none_of_holds
    (ownership.held addon installed found entry ((ownership.shares _ _ found).mem_of_owned owned))

theorem ne_none_of_loose (ownership : Ownership offer user table active loose) {name : String}
    (member : name ∈ loose.map Prod.fst) : table[name]? ≠ none := by
  obtain ⟨entry, isLoose, rfl⟩ := List.mem_map.mp member
  exact SymbolTable.ne_none_of_holds (ownership.looseHeld entry isLoose)

/-! ### Installing -/

/-- A new entry has no owner at first. -/
theorem install (ownership : Ownership offer user table active loose) {entry : String × Symbol}
    (fresh : table[entry.1]? = none) :
    Ownership offer user (table.insert entry.1 entry.2) active (loose ++ [entry]) := by
  have names : (loose ++ [entry]).map Prod.fst = loose.map Prod.fst ++ [entry.1] := List.map_append
  have others {name : String} (some : table[name]? ≠ none) :
      (table.insert entry.1 entry.2)[name]? = table[name]? := by
    rw [NameMap.getElem?_insert, if_neg]
    rintro rfl
    exact some fresh
  have stillHeld {other : String × Symbol} (held : table.holds other.1 other.2) :
      SymbolTable.holds (table.insert entry.1 entry.2) other.1 other.2 :=
    SymbolTable.holds_congr (others (SymbolTable.ne_none_of_holds held)) held
  refine ⟨fun name symbol found => ?_, ownership.shares, fun addon installed found other member =>
    stillHeld (ownership.held addon installed found other member), ownership.foreign,
    ownership.single, fun other member => ?_, fun name member => ?_, fun name member addon owned =>
    ?_, ?_, fun name some => ?_⟩
  · have before := ownership.kept name symbol found
    rw [others (by rw [before]; nofun), before]
  · rcases List.mem_append.mp member with before | now
    · exact stillHeld (ownership.looseHeld other before)
    · cases List.mem_singleton.mp now
      exact SymbolTable.holds_of_getElem? (by rw [NameMap.getElem?_insert, if_pos rfl])
  · rw [names] at member
    rcases List.mem_append.mp member with before | now
    · exact ownership.looseForeign name before
    · cases List.mem_singleton.mp now
      cases found : user[entry.1]? with
      | none => rfl
      | some symbol =>
        rw [ownership.kept _ _ found] at fresh
        cases fresh
  · rw [names] at member
    rcases List.mem_append.mp member with before | now
    · exact ownership.looseUnowned name before addon owned
    · cases List.mem_singleton.mp now
      exact ownership.ne_none_of_owns owned fresh
  · rw [names, List.nodup_append]
    refine ⟨ownership.looseDistinct, List.pairwise_singleton _ _, fun name before other now equal => ?_⟩
    subst equal
    cases List.mem_singleton.mp now
    exact ownership.ne_none_of_loose before fresh
  · rw [names]
    by_cases now : entry.1 = name
    · subst now
      exact .inr (.inr (List.mem_append_right _ (List.mem_singleton.mpr rfl)))
    · rw [NameMap.getElem?_insert, if_neg now] at some
      rcases ownership.explained name some with byUser | owned | isLoose
      · exact .inl byUser
      · exact .inr (.inl owned)
      · exact .inr (.inr (List.mem_append_left _ isLoose))

/-- An addon that becomes active owns the entries it has installed. -/
theorem attach {installed : Installed}
    (ownership : Ownership offer user table active installed.symbols) {addon : String}
    (inactive : active[addon]? = none) (shares : installed.Shares (offer addon))
    (held : ∀ entry ∈ (offer addon).entries, table.holds entry.1 entry.2) :
    Ownership offer user table (active.insert addon installed) [] := by
  have owns (other name : String) : Owns (active.insert addon installed) other name ↔
      Owns active other name ∨ (other = addon ∧ name ∈ installed.symbols.map Prod.fst) := by
    unfold Owns
    rw [NameMap.getElem?_insert]
    by_cases same : addon = other
    · subst same
      rw [if_pos rfl, inactive]
      simp
    · rw [if_neg same]
      simp [Ne.symm same]
  refine ⟨ownership.kept, fun other now found => ?_, fun other now found => ?_,
    fun other name owned => ?_, fun first second name ownedFirst ownedSecond => ?_, nofun, nofun,
    nofun, List.nodup_nil, fun name some => ?_⟩
  · rw [NameMap.getElem?_insert] at found
    split at found
    · subst addon
      cases found
      exact shares
    · exact ownership.shares other now found
  · rw [NameMap.getElem?_insert] at found
    split at found
    · subst addon
      exact held
    · exact ownership.held other now found
  · rcases (owns other name).mp owned with before | ⟨-, own⟩
    · exact ownership.foreign other name before
    · exact ownership.looseForeign name own
  · rcases (owns first name).mp ownedFirst with before | ⟨rfl, own⟩ <;>
      rcases (owns second name).mp ownedSecond with before' | ⟨rfl, own'⟩
    · exact ownership.single first second name before before'
    · exact absurd before (ownership.looseUnowned name own' first)
    · exact absurd before' (ownership.looseUnowned name own second)
    · rfl
  · rcases ownership.explained name some with byUser | ⟨other, owned⟩ | isLoose
    · exact .inl byUser
    · exact .inr (.inl ⟨other, (owns other name).mpr (.inl owned)⟩)
    · exact .inr (.inl ⟨addon, (owns addon name).mpr (.inr ⟨rfl, isLoose⟩)⟩)

/-! ### Releasing -/

/-- The entries of an addon that is active no longer have no owner at first. -/
theorem detach (ownership : Ownership offer user table active []) {addon : String}
    {installed : Installed} (found : active[addon]? = some installed) :
    Ownership offer user table (active.erase addon) installed.symbols := by
  have remaining {other : String} {now : Installed} (still : (active.erase addon)[other]? = some now) :
      addon ≠ other ∧ active[other]? = some now := by
    rw [NameMap.getElem?_erase] at still
    split at still
    · cases still
    · exact ⟨‹_›, still⟩
  have owns (other name : String) : Owns (active.erase addon) other name ↔
      addon ≠ other ∧ Owns active other name := by
    constructor
    · rintro ⟨now, still, own⟩
      exact ⟨(remaining still).1, now, (remaining still).2, own⟩
    · rintro ⟨different, now, still, own⟩
      refine ⟨now, ?_, own⟩
      rw [NameMap.getElem?_erase, if_neg different]
      exact still
  have shares := ownership.shares addon installed found
  refine ⟨ownership.kept, fun other now still => ownership.shares other now (remaining still).2,
    fun other now still => ownership.held other now (remaining still).2,
    fun other name owned => ownership.foreign other name ((owns other name).mp owned).2,
    fun first second name ownedFirst ownedSecond => ownership.single first second name
      ((owns first name).mp ownedFirst).2 ((owns second name).mp ownedSecond).2,
    fun entry own => ownership.held addon installed found entry (shares.mem_of_owned own),
    fun name own => ownership.foreign addon name ⟨installed, found, own⟩,
    fun name own other owned => ?_, ?_, fun name some => ?_⟩
  · obtain ⟨different, owned⟩ := (owns other name).mp owned
    exact different (ownership.single addon other name ⟨installed, found, own⟩ owned)
  · have distinct := (shares.entries.map Prod.fst).nodup_iff.mpr shares.distinct
    rw [List.map_append] at distinct
    exact (List.nodup_append.mp distinct).1
  · rcases ownership.explained name some with byUser | ⟨other, owned⟩ | none
    · exact .inl byUser
    · by_cases same : addon = other
      · subst same
        obtain ⟨now, again, own⟩ := owned
        rw [found] at again
        cases again
        exact .inr (.inr own)
      · exact .inr (.inl ⟨other, (owns other name).mpr ⟨same, owned⟩⟩)
    · cases none

/-- An addon takes over an entry that it adopted. -/
theorem pass {entry own : String × Symbol}
    (ownership : Ownership offer user table active (entry :: loose)) {heir : String}
    {installed : Installed} (found : active[heir]? = some installed)
    (adopted : installed.adopted? entry.1 entry.2 = some own) :
    Ownership offer user table (active.insert heir (installed.inherit own)) loose := by
  obtain ⟨isAdopted, sameName, -⟩ := Installed.adopted?_eq_some adopted
  obtain ⟨notLoose, distinct⟩ := List.nodup_cons.mp ownership.looseDistinct
  have names : (installed.inherit own).symbols.map Prod.fst =
      installed.symbols.map Prod.fst ++ [entry.1] := by
    rw [← sameName]
    exact List.map_append
  have owns (other name : String) : Owns (active.insert heir (installed.inherit own)) other name ↔
      Owns active other name ∨ (other = heir ∧ name = entry.1) := by
    unfold Owns
    rw [NameMap.getElem?_insert]
    by_cases same : heir = other
    · subst same
      rw [if_pos rfl, found]
      simp only [Option.some.injEq, exists_eq_left', names, List.mem_append, List.mem_singleton,
        true_and]
    · rw [if_neg same]
      simp [Ne.symm same]
  have unowned (addon : String) : ¬ Owns active addon entry.1 :=
    ownership.looseUnowned entry.1 (List.mem_cons_self ..) addon
  refine ⟨ownership.kept, fun other now still => ?_, fun other now still => ?_,
    fun other name owned => ?_, fun first second name ownedFirst ownedSecond => ?_,
    fun other member => ownership.looseHeld other (List.mem_cons_of_mem _ member),
    fun name member => ownership.looseForeign name (List.mem_cons_of_mem _ member),
    fun name member other owned => ?_, distinct, fun name some => ?_⟩
  · rw [NameMap.getElem?_insert] at still
    split at still
    · subst heir
      cases still
      exact (ownership.shares other installed found).inherit isAdopted
    · exact ownership.shares other now still
  · rw [NameMap.getElem?_insert] at still
    split at still
    · subst heir
      exact ownership.held other installed found
    · exact ownership.held other now still
  · rcases (owns other name).mp owned with before | ⟨-, rfl⟩
    · exact ownership.foreign other name before
    · exact ownership.looseForeign _ (List.mem_cons_self ..)
  · rcases (owns first name).mp ownedFirst with before | ⟨rfl, same⟩ <;>
      rcases (owns second name).mp ownedSecond with before' | ⟨rfl, same'⟩
    · exact ownership.single first second name before before'
    · rw [same'] at before
      exact absurd before (unowned first)
    · rw [same] at before'
      exact absurd before' (unowned second)
    · rfl
  · rcases (owns other name).mp owned with before | ⟨-, rfl⟩
    · exact ownership.looseUnowned name (List.mem_cons_of_mem _ member) other before
    · exact notLoose member
  · rcases ownership.explained name some with byUser | ⟨other, owned⟩ | isLoose
    · exact .inl byUser
    · exact .inr (.inl ⟨other, (owns other name).mpr (.inl owned)⟩)
    · rcases List.mem_cons.mp isLoose with rfl | later
      · exact .inr (.inl ⟨heir, (owns heir _).mpr (.inr ⟨rfl, rfl⟩)⟩)
      · exact .inr (.inr later)

/-- An entry that no addon has adopted is taken out. -/
theorem erase {entry : String × Symbol}
    (ownership : Ownership offer user table active (entry :: loose))
    (unclaimed : ∀ (addon : String) (installed : Installed), active[addon]? = some installed →
      installed.adopted? entry.1 entry.2 = none) :
    Ownership offer user (table.erase entry.1) active loose := by
  obtain ⟨notLoose, distinct⟩ := List.nodup_cons.mp ownership.looseDistinct
  have others {name : String} (different : entry.1 ≠ name) :
      (table.erase entry.1)[name]? = table[name]? := by
    rw [NameMap.getElem?_erase, if_neg different]
  refine ⟨fun name symbol found => ?_, ownership.shares, fun addon installed found other member => ?_,
    ownership.foreign, ownership.single, fun other member => ?_,
    fun name member => ownership.looseForeign name (List.mem_cons_of_mem _ member),
    fun name member => ownership.looseUnowned name (List.mem_cons_of_mem _ member), distinct,
    fun name some => ?_⟩
  · have foreign := ownership.looseForeign entry.1 (List.mem_cons_self ..)
    rw [others]
    · exact ownership.kept name symbol found
    · rintro rfl
      rw [foreign] at found
      cases found
  · refine SymbolTable.holds_congr (others ?_) (ownership.held addon installed found other member)
    intro same
    -- An addon that brings the entry of a name without an owner would have adopted it.
    have equal : other.2.same entry.2 := by
      refine SymbolTable.same_of_holds (ownership.held addon installed found other member) ?_
      rw [← same]
      exact ownership.looseHeld entry (List.mem_cons_self ..)
    have unowned : other ∉ installed.symbols := by
      intro owned
      refine ownership.looseUnowned entry.1 (List.mem_cons_self ..) addon ⟨installed, found, ?_⟩
      rw [same]
      exact List.mem_map_of_mem owned
    refine (ownership.shares addon installed found).adopted?_ne_none member unowned equal ?_
    rw [← same]
    exact unclaimed addon installed found
  · refine SymbolTable.holds_congr (others ?_)
      (ownership.looseHeld other (List.mem_cons_of_mem _ member))
    intro same
    rw [same] at notLoose
    exact notLoose (List.mem_map_of_mem member)
  · have different : entry.1 ≠ name := by
      rintro rfl
      exact some (by rw [NameMap.getElem?_erase, if_pos rfl])
    rw [others different] at some
    rcases ownership.explained name some with byUser | owned | isLoose
    · exact .inl byUser
    · exact .inr (.inl owned)
    · exact .inr (.inr ((List.mem_cons.mp isLoose).resolve_left (Ne.symm different)))

end Ownership

/-! ### A whole addon -/

namespace Workspace

/-- The addon that takes over an entry is active and has adopted it. -/
theorem heir?_eq_some {active : NameMap Installed} {name heir : String} {symbol : Symbol}
    {installed : Installed} {own : String × Symbol}
    (found : heir? active name symbol = some (heir, installed, own)) :
    active[heir]? = some installed ∧ installed.adopted? name symbol = some own := by
  obtain ⟨⟨addon, now⟩, member, taken⟩ := List.exists_of_findSome?_eq_some found
  obtain ⟨entry, adopted, equal⟩ := Option.map_eq_some_iff.mp taken
  cases equal
  exact ⟨Std.ExtTreeMap.mem_toList_iff_getElem?_eq_some.mp member, adopted⟩

/-- An entry that no addon takes over has been adopted by none. -/
theorem heir?_eq_none {active : NameMap Installed} {name : String} {symbol : Symbol}
    (unclaimed : heir? active name symbol = none) {addon : String} {installed : Installed}
    (found : active[addon]? = some installed) : installed.adopted? name symbol = none := by
  have skipped := List.findSome?_eq_none_iff.mp unclaimed (addon, installed)
    (Std.ExtTreeMap.mem_toList_iff_getElem?_eq_some.mpr found)
  exact Option.map_eq_none_iff.mp skipped

/-- **An entry that is released stays if it has been changed, passes to an addon that has adopted
it, or is taken out** if there is none. -/
theorem release_cases (table : SymbolTable) (active : NameMap Installed)
    (entry : String × Symbol) :
    (¬ table.holds entry.1 entry.2 ∧ release (table, active) entry = (table, active)) ∨
    (table.holds entry.1 entry.2 ∧ ∃ (heir : String) (installed : Installed) (own : String × Symbol),
      active[heir]? = some installed ∧ installed.adopted? entry.1 entry.2 = some own ∧
      release (table, active) entry = (table, active.insert heir (installed.inherit own))) ∨
    (table.holds entry.1 entry.2 ∧ (∀ (addon : String) (installed : Installed),
      active[addon]? = some installed → installed.adopted? entry.1 entry.2 = none) ∧
      release (table, active) entry = (table.erase entry.1, active)) := by
  unfold release
  by_cases held : table.holds entry.1 entry.2
  · simp only [if_pos held]
    cases found : heir? active entry.1 entry.2 with
    | some heir =>
      obtain ⟨isActive, adopted⟩ := heir?_eq_some found
      exact .inr (.inl ⟨held, _, _, _, isActive, adopted, rfl⟩)
    | none => exact .inr (.inr ⟨held, fun _ _ => heir?_eq_none found, rfl⟩)
  · exact .inl ⟨held, if_neg held⟩

/-- Releasing an entry deactivates no addon. -/
theorem mem_release {state : SymbolTable × NameMap Installed} {entry : String × Symbol}
    {addon : String} : addon ∈ (release state entry).2 ↔ addon ∈ state.2 := by
  obtain ⟨table, active⟩ := state
  rcases release_cases table active entry with ⟨_, result⟩ |
    ⟨_, heir, installed, own, isActive, _, result⟩ | ⟨_, _, result⟩
  · rw [result]
  · rw [result]
    show addon ∈ active.insert heir (installed.inherit own) ↔ addon ∈ active
    rw [Std.ExtTreeMap.mem_insert, Std.LawfulEqCmp.compare_eq_iff_eq, or_iff_right_iff_imp]
    rintro rfl
    rw [Std.ExtTreeMap.mem_iff_isSome_getElem?, isActive]
    rfl
  · rw [result]

theorem mem_foldl_release {entries : List (String × Symbol)}
    {state : SymbolTable × NameMap Installed} {addon : String} :
    addon ∈ (entries.foldl release state).2 ↔ addon ∈ state.2 := by
  induction entries generalizing state with
  | nil => exact Iff.rfl
  | cons entry rest ih => rw [List.foldl_cons, ih, mem_release]

end Workspace

namespace Ownership

variable {offer : String → Contribution} {user table : SymbolTable} {active : NameMap Installed}
  {loose : List (String × Symbol)}

/-- An entry without an owner passes to another addon or is taken out. -/
theorem release {entry : String × Symbol}
    (ownership : Ownership offer user table active (entry :: loose)) :
    Ownership offer user (Workspace.release (table, active) entry).1
      (Workspace.release (table, active) entry).2 loose := by
  have held := ownership.looseHeld entry (List.mem_cons_self ..)
  rcases Workspace.release_cases table active entry with ⟨changed, _⟩ |
    ⟨_, heir, installed, own, isActive, adopted, result⟩ | ⟨_, unclaimed, result⟩
  · exact absurd held changed
  · rw [result]
    exact ownership.pass isActive adopted
  · rw [result]
    exact ownership.erase unclaimed

/-- **All entries of a deactivated addon pass to others or are taken out.** -/
theorem releaseAll (ownership : Ownership offer user table active loose) :
    Ownership offer user (loose.foldl Workspace.release (table, active)).1
      (loose.foldl Workspace.release (table, active)).2 [] := by
  induction loose generalizing table active with
  | nil => exact ownership
  | cons entry rest ih =>
    rw [List.foldl_cons]
    exact ih ownership.release

end Ownership

/-! ### Installing a whole contribution -/

/-- Entries with different names join a table if each name is new to it or stands for the same
symbol. -/
def SymbolTable.Fits (table : SymbolTable) (entries : List (String × Symbol)) : Prop :=
  ∀ entry ∈ entries, table[entry.1]? = none ∨ table.holds entry.1 entry.2

/-- Entries are free to join a table if no name is repeated or stands for another symbol. -/
theorem SymbolTable.conflict?_eq_none {table : SymbolTable} {entries : List (String × Symbol)}
    {seen : List String} (free : table.conflict? seen entries = none) :
    (entries.map Prod.fst).Nodup ∧ (∀ name ∈ entries.map Prod.fst, name ∉ seen) ∧
      table.Fits entries := by
  induction entries generalizing seen with
  | nil => exact ⟨List.nodup_nil, nofun, nofun⟩
  | cons entry rest ih =>
    obtain ⟨name, symbol⟩ := entry
    rw [conflict?] at free
    split at free
    · cases free
    · rename_i unseen
      have joins : table.conflict? (name :: seen) rest = none ∧
          (table[name]? = none ∨ table.holds name symbol) := by
        split at free
        · exact ⟨free, .inl ‹_›⟩
        · rename_i existing found
          split at free
          · exact ⟨free, .inr (holds_iff.mpr ⟨existing, found, ‹_›⟩)⟩
          · cases free
      obtain ⟨distinct, others, fits⟩ := ih joins.1
      refine ⟨List.nodup_cons.mpr ⟨fun repeated => others name repeated (List.mem_cons_self ..),
        distinct⟩, fun other member => ?_, fun other member => ?_⟩
      · rcases List.mem_cons.mp member with rfl | later
        · exact unseen
        · exact fun before => others other later (List.mem_cons_of_mem _ before)
      · rcases List.mem_cons.mp member with rfl | later
        · exact joins.2
        · exact fits other later

/-- The entries of other names join a table as before. -/
theorem SymbolTable.Fits.insert {table : SymbolTable} {entry : String × Symbol}
    {rest : List (String × Symbol)} (fits : table.Fits rest)
    (notLater : entry.1 ∉ rest.map Prod.fst) :
    SymbolTable.Fits (table.insert entry.1 entry.2) rest := by
  intro other member
  have unchanged : (table.insert entry.1 entry.2)[other.1]? = table[other.1]? := by
    rw [NameMap.getElem?_insert, if_neg]
    intro same
    rw [same] at notLater
    exact notLater (List.mem_map_of_mem member)
  rcases fits other member with absent | held
  · exact .inl (unchanged.trans absent)
  · exact .inr (SymbolTable.holds_congr unchanged held)

namespace Workspace

variable {table table' : SymbolTable} {installed installed' : Installed}
  {entries : List (String × Symbol)}

/-- An entry that joins a table is adopted if the table holds it, and else installed under a name
that is new. -/
theorem install_cases {entry : String × Symbol}
    (fits : table[entry.1]? = none ∨ table.holds entry.1 entry.2) :
    (table.holds entry.1 entry.2 ∧ install (table, installed) entry =
      (table, { installed with adopted := installed.adopted ++ [entry] })) ∨
    (table[entry.1]? = none ∧ install (table, installed) entry =
      (table.insert entry.1 entry.2, { installed with symbols := installed.symbols ++ [entry] })) := by
  by_cases held : table.holds entry.1 entry.2
  · exact .inl ⟨held, if_pos held⟩
  · exact .inr ⟨fits.resolve_right held, if_neg held⟩

/-- What installing entries does to a table and to the lists of an addon. -/
structure Installation (table : SymbolTable) (installed : Installed)
    (entries : List (String × Symbol)) (after : SymbolTable × Installed) : Prop where
  /-- All entries are owned or adopted. -/
  listed : (after.2.symbols ++ after.2.adopted).Perm
    (installed.symbols ++ installed.adopted ++ entries)
  scripts : after.2.scripts = installed.scripts
  /-- The names of the table keep their symbols. -/
  kept : ∀ name : String, table[name]? ≠ none → after.1[name]? = table[name]?
  held : ∀ entry ∈ entries, after.1.holds entry.1 entry.2
  /-- What the addon owns now has been new to the table. -/
  fresh : ∀ entry ∈ after.2.symbols, entry ∈ installed.symbols ∨ table[entry.1]? = none

/-- **Entries that join a table** are owned or adopted by the addon that brings them. -/
theorem foldl_install (distinct : (entries.map Prod.fst).Nodup) (fits : table.Fits entries) :
    Installation table installed entries (entries.foldl install (table, installed)) := by
  induction entries generalizing table installed with
  | nil => exact ⟨by simp, rfl, fun _ _ => rfl, nofun, fun _ owned => .inl owned⟩
  | cons entry rest ih =>
    obtain ⟨notLater, distinct⟩ := List.nodup_cons.mp distinct
    obtain ⟨fitsNow, fitsLater⟩ := List.forall_mem_cons.mp fits
    rw [List.foldl_cons]
    rcases @install_cases _ installed _ fitsNow with ⟨held, result⟩ | ⟨fresh, result⟩
    · rw [result]
      have later := @ih table { installed with adopted := installed.adopted ++ [entry] } distinct
        fitsLater
      refine ⟨by simpa using later.listed, later.scripts, later.kept,
        List.forall_mem_cons.mpr ⟨?_, later.held⟩, later.fresh⟩
      exact SymbolTable.holds_congr (later.kept _ (SymbolTable.ne_none_of_holds held)) held
    · rw [result]
      have later := @ih (table.insert entry.1 entry.2)
        { installed with symbols := installed.symbols ++ [entry] } distinct
        (SymbolTable.Fits.insert fitsLater notLater)
      have present : (table.insert entry.1 entry.2)[entry.1]? = some entry.2 := by
        rw [NameMap.getElem?_insert, if_pos rfl]
      refine ⟨later.listed.trans ?_, later.scripts, fun name some => ?_,
        List.forall_mem_cons.mpr ⟨?_, later.held⟩, fun other owned => ?_⟩
      · simp only [List.append_assoc, List.singleton_append]
        exact List.perm_middle.symm.append_left installed.symbols
      · have unchanged : (table.insert entry.1 entry.2)[name]? = table[name]? := by
          rw [NameMap.getElem?_insert, if_neg]
          rintro rfl
          exact some fresh
        rw [later.kept name (by rwa [unchanged]), unchanged]
      · exact SymbolTable.holds_of_getElem? ((later.kept _ (by simp)).trans present)
      · rcases later.fresh other owned with before | absent
        · rcases List.mem_append.mp before with before | now
          · exact .inl before
          · cases List.mem_singleton.mp now
            exact .inr fresh
        · rw [NameMap.getElem?_insert] at absent
          split at absent
          · cases absent
          · exact .inr absent

/-- What an addon has installed is what it brings. -/
theorem Installation.shares {contribution : Contribution} {after : SymbolTable × Installed}
    (installation : Installation table ⟨[], [], contribution.refs⟩ contribution.entries after)
    (distinct : (contribution.entries.map Prod.fst).Nodup) : after.2.Shares contribution :=
  ⟨installation.listed, distinct, installation.scripts⟩

end Workspace

namespace Ownership

variable {offer : String → Contribution} {user table : SymbolTable} {active : NameMap Installed}

/-- **Entries that join a table have no owner but the addon that is being installed.** -/
theorem installAll {installed : Installed} {entries : List (String × Symbol)}
    (ownership : Ownership offer user table active installed.symbols)
    (distinct : (entries.map Prod.fst).Nodup) (fits : table.Fits entries) :
    Ownership offer user (entries.foldl Workspace.install (table, installed)).1 active
      (entries.foldl Workspace.install (table, installed)).2.symbols := by
  induction entries generalizing table installed with
  | nil => exact ownership
  | cons entry rest ih =>
    obtain ⟨notLater, distinct⟩ := List.nodup_cons.mp distinct
    obtain ⟨fitsNow, fitsLater⟩ := List.forall_mem_cons.mp fits
    rw [List.foldl_cons]
    rcases @Workspace.install_cases _ installed _ fitsNow with
      ⟨_, result⟩ | ⟨fresh, result⟩
    · rw [result]
      exact @ih table { installed with adopted := installed.adopted ++ [entry] } ownership distinct
        fitsLater
    · rw [result]
      exact @ih (table.insert entry.1 entry.2)
        { installed with symbols := installed.symbols ++ [entry] } (ownership.install fresh)
        distinct (SymbolTable.Fits.insert fitsLater notLater)

end Ownership

end Reckoner
