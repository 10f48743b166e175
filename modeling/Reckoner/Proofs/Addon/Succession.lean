/-
How an entry outlives the addon that owns it.

The user may change and remove the entries of active addons, so the lists of an addon can differ
from the table. These facts do not depend on what the user did.

* `Sharing` — what every active addon owns and adopted is what it brings.
* `Lone` — an entry of some kind has at most one owner. Releasing it keeps this (`Lone.release`), for
  an addon that takes an entry over becomes the only owner.
* `Upheld` — an active addon brings an entry of the table that has at most one owner.
* `Workspace.getElem?_setActive` — **an entry with at most one owner stays in the table while an
  addon that brings it stays active.**
* `Rooted` — no name has two owners, and the table has all names that are owned. Activations and
  deactivations keep this.
-/

import Reckoner.Proofs.Addon.History

namespace Reckoner

/-- What every active addon owns and adopted is what it brings. -/
def Sharing (offer : String → Contribution) (active : NameMap Installed) : Prop :=
  ∀ (addon : String) (installed : Installed),
    active[addon]? = some installed → installed.Shares (offer addon)

/-- An active addon owns an entry under a name, with a symbol of some kind. -/
def OwnsLike (like : Symbol → Prop) (active : NameMap Installed) (addon name : String) : Prop :=
  ∃ installed, active[addon]? = some installed ∧
    ∃ entry ∈ installed.symbols, entry.1 = name ∧ like entry.2

/-- **The entries under a name with a symbol of some kind have one owner at most**: an active addon,
or none for those in `loose`, which are just being released. -/
structure Lone (like : Symbol → Prop) (active : NameMap Installed) (name : String)
    (loose : List (String × Symbol)) : Prop where
  single : ∀ addon other, OwnsLike like active addon name → OwnsLike like active other name →
    addon = other
  unowned : ∀ entry ∈ loose, entry.1 = name → like entry.2 →
    ∀ addon, ¬ OwnsLike like active addon name
  distinct : (loose.map Prod.fst).Nodup

variable {offer : String → Contribution} {table : SymbolTable} {active : NameMap Installed}
  {loose : List (String × Symbol)} {addon name : String} {installed : Installed}
  {like : Symbol → Prop}

theorem Lone.mono {like' : Symbol → Prop} (lone : Lone like active name loose)
    (implies : ∀ symbol, like' symbol → like symbol) : Lone like' active name loose := by
  have weaken {addon : String} (owns : OwnsLike like' active addon name) :
      OwnsLike like active addon name := by
    obtain ⟨installed, found, entry, own, named, isLike⟩ := owns
    exact ⟨installed, found, entry, own, named, implies entry.2 isLike⟩
  refine ⟨fun addon other owns owns' => lone.single addon other (weaken owns) (weaken owns'),
    fun entry released named isLike addon owns => ?_, lone.distinct⟩
  exact lone.unowned entry released named (implies entry.2 isLike) addon (weaken owns)

/-! ### No active addons -/

theorem Sharing.of_inactive (inactive : ∀ addon, addon ∉ active) : Sharing offer active := by
  intro addon installed found
  refine absurd (Std.ExtTreeMap.mem_iff_isSome_getElem?.mpr ?_) (inactive addon)
  rw [found]
  rfl

theorem not_ownsLike_of_inactive (inactive : ∀ addon, addon ∉ active) :
    ¬ OwnsLike like active addon name := by
  rintro ⟨installed, found, -⟩
  refine absurd (Std.ExtTreeMap.mem_iff_isSome_getElem?.mpr ?_) (inactive addon)
  rw [found]
  rfl

/-! ### An addon that goes away -/

/-- The lists of the addons that remain when one goes away. -/
theorem getElem?_of_erase {gone : String}
    (remains : (active.erase gone)[addon]? = some installed) :
    gone ≠ addon ∧ active[addon]? = some installed := by
  rw [NameMap.getElem?_erase] at remains
  split at remains
  · cases remains
  · exact ⟨‹_›, remains⟩

theorem Sharing.erase (sharing : Sharing offer active) (gone : String) :
    Sharing offer (active.erase gone) :=
  fun addon installed remains => sharing addon installed (getElem?_of_erase remains).2

theorem ownsLike_erase {gone : String} (owns : OwnsLike like (active.erase gone) addon name) :
    gone ≠ addon ∧ OwnsLike like active addon name := by
  obtain ⟨installed, remains, own⟩ := owns
  obtain ⟨different, found⟩ := getElem?_of_erase remains
  exact ⟨different, installed, found, own⟩

/-- The entries of an addon that goes away have no owner at first. -/
theorem Lone.detach {σ : Type} {w : Workspace σ} (lone : Lone like w.active name [])
    (sharing : Sharing offer w.active) (addon : String) :
    Lone like (w.active.erase addon) name (w.installed addon).symbols := by
  have single (other another : String) (owns : OwnsLike like (w.active.erase addon) other name)
      (owns' : OwnsLike like (w.active.erase addon) another name) : other = another :=
    lone.single other another (ownsLike_erase owns).2 (ownsLike_erase owns').2
  unfold Workspace.installed
  cases found : w.active[addon]? with
  | none => exact ⟨single, nofun, List.nodup_nil⟩
  | some installed =>
    refine ⟨single, fun entry own named isLike other owns => ?_, ?_⟩
    · obtain ⟨different, owns⟩ := ownsLike_erase owns
      exact different (lone.single addon other ⟨installed, found, entry, own, named, isLike⟩ owns)
    · have shares := sharing addon installed found
      have distinct := (shares.entries.map Prod.fst).nodup_iff.mpr shares.distinct
      rw [List.map_append] at distinct
      exact (List.nodup_append.mp distinct).1

/-! ### An entry that is released -/

/-- The lists of the addons when one of them takes an entry over. -/
theorem getElem?_of_inherit {heir : String} {now : Installed} {own : String × Symbol}
    (still : (active.insert heir (installed.inherit own))[addon]? = some now) :
    (heir = addon ∧ now = installed.inherit own) ∨ active[addon]? = some now := by
  rw [NameMap.getElem?_insert] at still
  split at still
  · cases still
    exact .inl ⟨‹_›, rfl⟩
  · exact .inr still

theorem Sharing.release (sharing : Sharing offer active) (table : SymbolTable)
    (entry : String × Symbol) : Sharing offer (Workspace.release (table, active) entry).2 := by
  rcases Workspace.release_cases table active entry with ⟨_, result⟩ |
    ⟨_, heir, installed, own, found, adopted, result⟩ | ⟨_, _, result⟩
  · rw [result]
    exact sharing
  · rw [result]
    intro addon now still
    rcases getElem?_of_inherit still with ⟨rfl, rfl⟩ | before
    · exact (sharing heir installed found).inherit (Installed.adopted?_eq_some adopted).1
    · exact sharing addon now before
  · rw [result]
    exact sharing

section Entries

variable (respects : ∀ a b : Symbol, a.same b → like a → like b) {entry : String × Symbol}

include respects in
/-- The owners of a name when an addon takes an entry over. -/
theorem ownsLike_of_inherit {heir : String} {own : String × Symbol}
    (found : active[heir]? = some installed)
    (adopted : installed.adopted? entry.1 entry.2 = some own)
    (owns : OwnsLike like (active.insert heir (installed.inherit own)) addon name) :
    OwnsLike like active addon name ∨ (heir = addon ∧ entry.1 = name ∧ like entry.2) := by
  obtain ⟨-, sameName, same⟩ := Installed.adopted?_eq_some adopted
  obtain ⟨now, still, other, owned, named, isLike⟩ := owns
  rcases getElem?_of_inherit still with ⟨rfl, rfl⟩ | before
  · rcases List.mem_append.mp owned with before | isOwn
    · exact .inl ⟨installed, found, other, before, named, isLike⟩
    · cases List.mem_singleton.mp isOwn
      exact .inr ⟨rfl, sameName.symm.trans named, respects _ _ same isLike⟩
  · exact .inl ⟨now, before, other, owned, named, isLike⟩

namespace Lone

theorem tail (lone : Lone like active name (entry :: loose)) : Lone like active name loose where
  single := lone.single
  unowned other later := lone.unowned other (List.mem_cons_of_mem _ later)
  distinct := (List.nodup_cons.mp lone.distinct).2

include respects in
/-- **An addon that takes an entry over is its only owner.** -/
theorem inherit (lone : Lone like active name (entry :: loose)) {heir : String} {own : String × Symbol}
    (found : active[heir]? = some installed)
    (adopted : installed.adopted? entry.1 entry.2 = some own) :
    Lone like (active.insert heir (installed.inherit own)) name loose := by
  obtain ⟨notLater, distinct⟩ := List.nodup_cons.mp lone.distinct
  have owners {addon : String}
      (owns : OwnsLike like (active.insert heir (installed.inherit own)) addon name) :=
    ownsLike_of_inherit respects found adopted owns
  have released := lone.unowned entry (List.mem_cons_self ..)
  refine ⟨fun addon other owns owns' => ?_, fun other later named isLike addon owns => ?_, distinct⟩
  · rcases owners owns with before | ⟨rfl, named, isLike⟩ <;>
      rcases owners owns' with before' | ⟨rfl, named', isLike'⟩
    · exact lone.single addon other before before'
    · exact absurd before (released named' isLike' addon)
    · exact absurd before' (released named isLike other)
    · rfl
  · rcases owners owns with before | ⟨-, named', -⟩
    · exact lone.unowned other (List.mem_cons_of_mem _ later) named isLike addon before
    · refine notLater ?_
      rw [named', ← named]
      exact List.mem_map_of_mem later

include respects in
/-- **Releasing an entry leaves it with one owner at most.** -/
theorem release (lone : Lone like active name (entry :: loose)) (table : SymbolTable) :
    Lone like (Workspace.release (table, active) entry).2 name loose := by
  rcases Workspace.release_cases table active entry with ⟨_, result⟩ |
    ⟨_, heir, installed, own, found, adopted, result⟩ | ⟨_, _, result⟩
  · rw [result]
    exact lone.tail
  · rw [result]
    exact lone.inherit respects found adopted
  · rw [result]
    exact lone.tail

end Lone

end Entries

/-! ### An entry that an active addon brings -/

section Upheld

variable {σ : Type} {source : AddonSource σ} {symbol : Symbol} {w : Workspace σ}

/-- **An active addon brings an entry of the table** that has at most one owner. -/
structure Upheld (offer : String → Contribution) (addon name : String) (symbol : Symbol)
    (table : SymbolTable) (active : NameMap Installed) (loose : List (String × Symbol)) :
    Prop where
  sharing : Sharing offer active
  isActive : addon ∈ active
  held : table.holds name symbol
  lone : Lone (·.same symbol) active name loose

namespace Upheld

/-- **An entry that an active addon brings is not taken out**: its last owner has it released while
that addon has adopted it. -/
theorem getElem?_release {entry : String × Symbol}
    (upheld : Upheld offer addon name symbol table active (entry :: loose))
    (brings : (offer addon).Brings name symbol) :
    (Workspace.release (table, active) entry).1[name]? = table[name]? := by
  rcases Workspace.release_cases table active entry with ⟨_, result⟩ |
    ⟨_, heir, installed, own, found, adopted, result⟩ | ⟨held, unclaimed, result⟩
  · rw [result]
  · rw [result]
  · rw [result]
    show (table.erase entry.1)[name]? = table[name]?
    rw [NameMap.getElem?_erase, if_neg]
    rintro rfl
    obtain ⟨installed, found⟩ := Option.isSome_iff_exists.mp
      (Std.ExtTreeMap.mem_iff_isSome_getElem?.mp upheld.isActive)
    obtain ⟨other, brought, named, same⟩ := brings
    have isLike := SymbolTable.same_of_holds held upheld.held
    have released := upheld.lone.unowned entry (List.mem_cons_self ..) rfl isLike addon
    have unowned : other ∉ installed.symbols := fun owned =>
      released ⟨installed, found, other, owned, named, same⟩
    refine (upheld.sharing addon installed found).adopted?_ne_none brought unowned
      (Symbol.same_trans same (Symbol.same_symm isLike)) ?_
    rw [named]
    exact unclaimed addon installed found

theorem release {entry : String × Symbol}
    (upheld : Upheld offer addon name symbol table active (entry :: loose))
    (brings : (offer addon).Brings name symbol) :
    Upheld offer addon name symbol (Workspace.release (table, active) entry).1
      (Workspace.release (table, active) entry).2 loose where
  sharing := upheld.sharing.release table entry
  isActive := Workspace.mem_release.mpr upheld.isActive
  held := SymbolTable.holds_congr (upheld.getElem?_release brings) upheld.held
  lone := upheld.lone.release (fun _ _ same => Symbol.same_trans (Symbol.same_symm same)) table

theorem foldl_release (upheld : Upheld offer addon name symbol table active loose)
    (brings : (offer addon).Brings name symbol) :
    Upheld offer addon name symbol (loose.foldl Workspace.release (table, active)).1
        (loose.foldl Workspace.release (table, active)).2 [] ∧
      (loose.foldl Workspace.release (table, active)).1[name]? = table[name]? := by
  induction loose generalizing table active with
  | nil => exact ⟨upheld, rfl⟩
  | cons entry rest ih =>
    obtain ⟨later, unchanged⟩ := ih (upheld.release brings)
    rw [List.foldl_cons]
    exact ⟨later, unchanged.trans (upheld.getElem?_release brings)⟩

/-- **Deactivating another addon leaves the entry in the table.** -/
theorem deactivate (upheld : Upheld offer addon name symbol w.table w.active [])
    (brings : (offer addon).Brings name symbol) {other : String} (stays : other ≠ addon) :
    Upheld offer addon name symbol (w.deactivate source other).2.table
        (w.deactivate source other).2.active [] ∧
      (w.deactivate source other).2.table[name]? = w.table[name]? := by
  have released : Upheld offer addon name symbol w.table (w.active.erase other)
      (w.installed other).symbols := by
    refine ⟨upheld.sharing.erase other, ?_, upheld.held, upheld.lone.detach upheld.sharing other⟩
    rw [Std.ExtTreeMap.mem_erase, ne_eq, Std.LawfulEqCmp.compare_eq_iff_eq]
    exact ⟨stays, upheld.isActive⟩
  exact released.foldl_release brings

theorem foldl_deactivate (upheld : Upheld offer addon name symbol w.table w.active [])
    (brings : (offer addon).Brings name symbol) {others : List String}
    (stays : addon ∉ others) :
    (others.foldl (fun w other => (w.deactivate source other).2) w).table[name]? =
      w.table[name]? := by
  induction others generalizing w with
  | nil => rfl
  | cons other rest ih =>
    rw [List.mem_cons, not_or] at stays
    obtain ⟨later, unchanged⟩ := @deactivate _ _ _ _ source _ _ upheld brings other (Ne.symm stays.1)
    rw [List.foldl_cons, ih later stays.2, unchanged]

end Upheld

namespace Workspace

/-- Activating an addon leaves the entries of the table as they are. -/
theorem getElem?_activate (steady : source.Steady offer) (some : w.table[name]? ≠ none)
    (addon : String) : (w.activate source addon).2.table[name]? = w.table[name]? := by
  obtain ⟨state, unchanged | ⟨free, accepted⟩⟩ := activate_cases steady addon w
  · rw [unchanged]
  · obtain ⟨distinct, -, fits⟩ := SymbolTable.conflict?_eq_none free
    rw [accepted, accept_eq]
    exact (foldl_install distinct fits).kept name some

theorem getElem?_foldl_activate (steady : source.Steady offer) (some : w.table[name]? ≠ none)
    (addons : List String) :
    (addons.foldl (fun w addon => (w.activate source addon).2) w).table[name]? =
      w.table[name]? := by
  induction addons generalizing w with
  | nil => rfl
  | cons addon rest ih =>
    have unchanged := getElem?_activate steady some addon
    rw [List.foldl_cons, ih (by rwa [unchanged]), unchanged]

/-- **An entry with at most one owner stays in the table** while an addon that brings it stays
active. -/
theorem getElem?_setActive (steady : source.Steady offer)
    (upheld : Upheld offer addon name symbol w.table w.active [])
    (brings : (offer addon).Brings name symbol) {requested : NameSet} (stays : addon ∈ requested) :
    (w.setActive source requested).2.table[name]? = w.table[name]? := by
  have remains : addon ∉ w.active.keys.filter (· ∉ requested) := fun member =>
    of_decide_eq_true (List.mem_filter.mp member).2 stays
  have unchanged := @Upheld.foldl_deactivate _ _ _ _ source _ _ upheld brings _ remains
  rw [setActive_snd, getElem?_foldl_activate steady, unchanged]
  rw [unchanged]
  exact SymbolTable.ne_none_of_holds upheld.held

end Workspace

end Upheld

/-! ### Requests -/

section Requests

variable {σ : Type} {source : AddonSource σ} {w : Workspace σ}

theorem Sharing.foldl_release (sharing : Sharing offer active) :
    Sharing offer (loose.foldl Workspace.release (table, active)).2 := by
  induction loose generalizing table active with
  | nil => exact sharing
  | cons entry rest ih => exact ih (sharing.release table entry)

/-- What holds of a workspace after every step holds after every request. -/
theorem Workspace.setActive_induction {motive : Workspace σ → Prop}
    (activate : ∀ w addon, motive w → motive (w.activate source addon).2)
    (deactivate : ∀ w addon, motive w → motive (w.deactivate source addon).2)
    (requested : NameSet) (before : motive w) : motive (w.setActive source requested).2 := by
  rw [setActive_snd]
  exact List.foldlRecOn _ _ (List.foldlRecOn _ _ before fun w holds addon _ => deactivate w addon holds)
    fun w holds addon _ => activate w addon holds

theorem Sharing.activate (steady : source.Steady offer) (sharing : Sharing offer w.active)
    (addon : String) : Sharing offer (w.activate source addon).2.active := by
  obtain ⟨state, unchanged | ⟨free, accepted⟩⟩ := Workspace.activate_cases steady addon w
  · rw [unchanged]
    exact sharing
  · obtain ⟨distinct, -, fits⟩ := SymbolTable.conflict?_eq_none free
    rw [accepted, Workspace.accept_eq]
    intro other installed found
    rw [NameMap.getElem?_insert] at found
    split at found
    · subst addon
      cases found
      exact (Workspace.foldl_install distinct fits).shares distinct
    · exact sharing other installed found

theorem Sharing.deactivate (sharing : Sharing offer w.active) (addon : String) :
    Sharing offer (w.deactivate source addon).2.active := by
  rw [Workspace.deactivate_snd]
  exact (sharing.erase addon).foldl_release

/-- **Every request leaves the lists of the active addons with what they bring.** -/
theorem Sharing.setActive (steady : source.Steady offer) (sharing : Sharing offer w.active)
    (requested : NameSet) : Sharing offer (w.setActive source requested).2.active :=
  Workspace.setActive_induction (motive := fun w => Sharing offer w.active)
    (fun _ addon sharing => sharing.activate steady addon)
    (fun _ addon sharing => sharing.deactivate addon) requested sharing

end Requests

/-! ### Names with one owner -/

/-- **No name has two owners**, and the table has all names that are owned. -/
structure Rooted (table : SymbolTable) (active : NameMap Installed)
    (loose : List (String × Symbol)) : Prop where
  present : ∀ addon name, Owns active addon name → table[name]? ≠ none
  lone : ∀ name, Lone (fun _ => True) active name loose

theorem owns_iff : Owns active addon name ↔ OwnsLike (fun _ => True) active addon name := by
  simp [Owns, OwnsLike]

namespace Rooted

variable {σ : Type} {source : AddonSource σ} {w : Workspace σ}

theorem of_inactive (inactive : ∀ addon, addon ∉ active) : Rooted table active [] :=
  ⟨fun _ _ owns => absurd (owns_iff.mp owns) (not_ownsLike_of_inactive inactive),
    fun _ => ⟨fun _ _ owns => absurd owns (not_ownsLike_of_inactive inactive), nofun,
      List.nodup_nil⟩⟩

theorem release {entry : String × Symbol} (rooted : Rooted table active (entry :: loose)) :
    Rooted (Workspace.release (table, active) entry).1 (Workspace.release (table, active) entry).2
      loose := by
  refine ⟨fun addon name owns => ?_, fun name => (rooted.lone name).release (fun _ _ _ _ => trivial) _⟩
  rcases Workspace.release_cases table active entry with ⟨_, result⟩ |
    ⟨held, heir, installed, own, found, adopted, result⟩ | ⟨_, _, result⟩
  · rw [result] at owns ⊢
    exact rooted.present addon name owns
  · rw [result] at owns ⊢
    rcases ownsLike_of_inherit (fun _ _ _ _ => trivial) found adopted (owns_iff.mp owns) with
      before | ⟨-, rfl, -⟩
    · exact rooted.present addon name (owns_iff.mpr before)
    · exact SymbolTable.ne_none_of_holds held
  · rw [result] at owns ⊢
    show (table.erase entry.1)[name]? ≠ none
    rw [NameMap.getElem?_erase, if_neg]
    · exact rooted.present addon name owns
    · rintro rfl
      exact (rooted.lone entry.1).unowned entry (List.mem_cons_self ..) rfl trivial addon
        (owns_iff.mp owns)

theorem foldl_release (rooted : Rooted table active loose) :
    Rooted (loose.foldl Workspace.release (table, active)).1
      (loose.foldl Workspace.release (table, active)).2 [] := by
  induction loose generalizing table active with
  | nil => exact rooted
  | cons entry rest ih => exact ih rooted.release

/-- **Deactivating an addon leaves every name with one owner at most.** -/
theorem deactivate (sharing : Sharing offer w.active) (rooted : Rooted w.table w.active [])
    (addon : String) :
    Rooted (w.deactivate source addon).2.table (w.deactivate source addon).2.active [] := by
  have released : Rooted w.table (w.active.erase addon) (w.installed addon).symbols :=
    ⟨fun other name owns =>
      rooted.present other name (owns_iff.mpr (ownsLike_erase (owns_iff.mp owns)).2),
      fun name => (rooted.lone name).detach sharing addon⟩
  exact released.foldl_release

/-- **An addon that is installed owns no name that had an owner**: the table has those names. -/
theorem accept (rooted : Rooted w.table w.active []) {contribution : Contribution}
    (free : SymbolTable.conflict? w.table [] contribution.entries = none) (addon : String) :
    Rooted (w.accept addon contribution).table (w.accept addon contribution).active [] := by
  obtain ⟨distinct, -, fits⟩ := SymbolTable.conflict?_eq_none free
  have installation :=
    @Workspace.foldl_install w.table ⟨[], [], contribution.refs⟩ _ distinct fits
  have shares := installation.shares distinct
  rw [Workspace.accept_eq]
  revert installation shares
  generalize contribution.entries.foldl Workspace.install (w.table, _) = after
  obtain ⟨table, installed⟩ := after
  intro installation shares
  have owners {other name : String}
      (owns : Owns (w.active.insert addon installed) other name) :
      (addon = other ∧ ∃ entry ∈ installed.symbols, entry.1 = name) ∨ Owns w.active other name := by
    obtain ⟨now, found, member⟩ := owns
    rw [NameMap.getElem?_insert] at found
    split at found
    · cases found
      exact .inl ⟨‹_›, List.mem_map.mp member⟩
    · exact .inr ⟨now, found, member⟩
  have absent {entry : String × Symbol} (owned : entry ∈ installed.symbols) :
      w.table[entry.1]? = none := (installation.fresh entry owned).resolve_left List.not_mem_nil
  refine ⟨fun other name owns => ?_, fun name => ⟨fun first second owns owns' => ?_, nofun,
    List.nodup_nil⟩⟩
  · show table[name]? ≠ none
    rcases owners owns with ⟨-, entry, owned, rfl⟩ | before
    · exact SymbolTable.ne_none_of_holds (installation.held entry (shares.mem_of_owned owned))
    · have some := rooted.present other name before
      rwa [show table[name]? = _ from installation.kept name some]
  · rcases owners (owns_iff.mpr owns) with ⟨rfl, entry, owned, rfl⟩ | before <;>
      rcases owners (owns_iff.mpr owns') with ⟨rfl, entry', owned', named⟩ | before'
    · rfl
    · exact absurd (absent owned) (rooted.present second _ before')
    · rw [← named] at before
      exact absurd (absent owned') (rooted.present first _ before)
    · exact (rooted.lone name).single first second (owns_iff.mp before) (owns_iff.mp before')

/-- **Activating an addon leaves every name with one owner at most.** -/
theorem activate (steady : source.Steady offer) (rooted : Rooted w.table w.active [])
    (addon : String) :
    Rooted (w.activate source addon).2.table (w.activate source addon).2.active [] := by
  obtain ⟨state, unchanged | ⟨free, accepted⟩⟩ := Workspace.activate_cases steady addon w
  · rw [unchanged]
    exact rooted
  · rw [accepted]
    exact @accept _ { w with source := state } rooted _ free addon

/-- **Every request leaves every name with one owner at most.** -/
theorem setActive (steady : source.Steady offer) (sharing : Sharing offer w.active)
    (rooted : Rooted w.table w.active []) (requested : NameSet) :
    Rooted (w.setActive source requested).2.table (w.setActive source requested).2.active [] :=
  (Workspace.setActive_induction (motive := fun w => Sharing offer w.active ∧
      Rooted w.table w.active [])
    (fun _ addon ⟨sharing, rooted⟩ => ⟨sharing.activate steady addon, rooted.activate steady addon⟩)
    (fun _ addon ⟨sharing, rooted⟩ => ⟨sharing.deactivate addon, rooted.deactivate sharing addon⟩)
    requested ⟨sharing, rooted⟩).2

end Rooted

end Reckoner
