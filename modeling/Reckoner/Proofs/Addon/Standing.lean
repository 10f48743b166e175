/-
Active addons that have all they bring in the table.

The user can change and remove functions of active addons, and then other addons may bring something
else under their names. While the user leaves these names alone, the table has everything that active
addons bring, so no two of them contradict each other.

* `Standing` — the table has what the active addons bring, and every name has one owner at most.
* `Standing.activate`, `Standing.deactivate`, `Standing.setActive` — addons keep this.
* `Standing.withTable` — so does every change to other names.
* `Standing.agreeing` — **the active addons do not contradict each other.**
-/

import Reckoner.Proofs.Addon.Concord

namespace Reckoner

/-- **The table has what the active addons bring**, and every name has one owner at most. -/
structure Standing (offer : String → Contribution) (table : SymbolTable)
    (active : NameMap Installed) : Prop where
  sharing : Sharing offer active
  rooted : Rooted table active []
  held : ∀ addon ∈ active, ∀ entry ∈ (offer addon).entries, table.holds entry.1 entry.2

/-- An active addon brings an entry. -/
def Offered (offer : String → Contribution) (active : NameMap Installed) (name : String)
    (symbol : Symbol) : Prop :=
  ∃ addon ∈ active, (name, symbol) ∈ (offer addon).entries

namespace Standing

variable {σ : Type} {source : AddonSource σ} {offer : String → Contribution} {w : Workspace σ}
  {table : SymbolTable} {active : NameMap Installed}

theorem of_inactive (inactive : ∀ addon, addon ∉ active) : Standing offer table active :=
  ⟨.of_inactive inactive, .of_inactive inactive, fun addon isActive => absurd isActive (inactive addon)⟩

/-- **The active addons do not contradict each other.** -/
theorem agreeing (standing : Standing offer table active) : Agreeing (Offered offer active) := by
  rintro name a b ⟨addon, isActive, brings⟩ ⟨other, isActive', brings'⟩
  exact SymbolTable.same_of_holds (standing.held addon isActive _ brings)
    (standing.held other isActive' _ brings')

theorem deactivate (standing : Standing offer w.table w.active) (addon : String) :
    Standing offer (w.deactivate source addon).2.table (w.deactivate source addon).2.active := by
  refine ⟨standing.sharing.deactivate addon, standing.rooted.deactivate standing.sharing addon,
    fun other remains entry brought => ?_⟩
  obtain ⟨different, isActive⟩ := Workspace.mem_deactivate.mp remains
  have upheld : Upheld offer other entry.1 entry.2 w.table w.active [] :=
    ⟨standing.sharing, isActive, standing.held other isActive entry brought,
      (standing.rooted.lone entry.1).mono fun _ _ => trivial⟩
  exact (upheld.deactivate ⟨entry, brought, rfl, entry.2.same_refl⟩ different).1.held

theorem activate (steady : source.Steady offer) (standing : Standing offer w.table w.active)
    (addon : String) :
    Standing offer (w.activate source addon).2.table (w.activate source addon).2.active := by
  refine ⟨standing.sharing.activate steady addon, standing.rooted.activate steady addon,
    fun other isActive entry brought => ?_⟩
  obtain ⟨state, unchanged | ⟨free, accepted⟩⟩ := Workspace.activate_cases steady addon w
  · rw [unchanged] at isActive ⊢
    exact standing.held other isActive entry brought
  · obtain ⟨distinct, -, fits⟩ := SymbolTable.conflict?_eq_none free
    have installation := @Workspace.foldl_install w.table ⟨[], [], (offer addon).refs⟩ _ distinct fits
    rw [accepted] at isActive ⊢
    rcases Workspace.mem_accept.mp isActive with rfl | before
    · exact installation.held entry brought
    · have held := standing.held other before entry brought
      exact SymbolTable.holds_congr (installation.kept _ (SymbolTable.ne_none_of_holds held)) held

/-- **Every request leaves the table with what the active addons bring.** -/
theorem setActive (steady : source.Steady offer) (standing : Standing offer w.table w.active)
    (requested : NameSet) :
    Standing offer (w.setActive source requested).2.table (w.setActive source requested).2.active :=
  Workspace.setActive_induction (motive := fun w => Standing offer w.table w.active)
    (fun _ addon standing => standing.activate steady addon)
    (fun _ addon standing => standing.deactivate addon) requested standing

/-- **A change to names that no active addon brings** leaves the table with what they bring. -/
theorem withTable (standing : Standing offer table active) {after : SymbolTable}
    (unchanged : ∀ name symbol, Offered offer active name symbol → after[name]? = table[name]?) :
    Standing offer after active := by
  refine ⟨standing.sharing, ⟨fun addon name owns => ?_, standing.rooted.lone⟩,
    fun addon isActive entry brought => ?_⟩
  · have some := standing.rooted.present addon name owns
    obtain ⟨installed, found, own⟩ := owns
    obtain ⟨entry, owned, rfl⟩ := List.mem_map.mp own
    have isActive : addon ∈ active := by
      rw [Std.ExtTreeMap.mem_iff_isSome_getElem?, found]
      rfl
    rwa [unchanged entry.1 entry.2
      ⟨addon, isActive, (standing.sharing addon installed found).mem_of_owned owned⟩]
  · exact SymbolTable.holds_congr (unchanged _ entry.2 ⟨addon, isActive, brought⟩)
      (standing.held addon isActive entry brought)

end Standing

/-! ### Addons that start together -/

namespace Workspace

variable {σ : Type} {source : AddonSource σ} {result : String → Except AddonError Contribution}

/-- **Addons all become active with an empty table exactly if they do not contradict each other.** -/
theorem setActive_initial_iff (fixed : source.Fixed result) {requested : NameSet}
    (loads : ∀ addon ∈ requested, ∃ contribution, result addon = .ok contribution ∧
      (contribution.entries.map Prod.fst).Nodup) (state : σ) :
    ((initial state).setActive source requested).1 = [] ∧
        ((initial state).setActive source requested).2.activeSet = requested ↔
      Agreeing fun name symbol => ∃ addon ∈ requested, (name, symbol) ∈ (offerOf result addon).entries := by
  have inactive (addon : String) : addon ∉ (initial state : Workspace σ).active :=
    Std.ExtTreeMap.not_mem_empty
  constructor
  · rintro ⟨-, active⟩
    have standing : Standing (offerOf result) _ _ :=
      Standing.setActive (w := initial state) fixed.steady (.of_inactive inactive) requested
    rintro name a b ⟨addon, isRequested, brings⟩ ⟨other, isRequested', brings'⟩
    rw [← active, mem_activeSet] at isRequested isRequested'
    exact standing.agreeing name a b ⟨addon, isRequested, brings⟩ ⟨other, isRequested', brings'⟩
  · intro agreeing
    refine setActive_agreeing fixed agreeing inactive (fun addon isRequested => ?_)
      fun name symbol found => ?_
    · obtain ⟨contribution, loaded, distinct⟩ := loads addon isRequested
      refine ⟨contribution, loaded, distinct, fun entry brought => ⟨addon, isRequested, ?_⟩⟩
      rwa [offerOf_eq loaded]
    · cases found

end Workspace

end Reckoner
