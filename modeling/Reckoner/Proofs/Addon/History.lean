/-
What any history of addons leaves behind.

* `AddonSource.Steady`, `Separate` — every addon brings the same whenever it can be loaded at all,
  and no two addons share a script.
* `Workspace.activate_cases` — an addon that cannot be activated changes nothing but its source.
* `Explained` — the table by its owners, the scripts by the active addons. Activating and
  deactivating an addon keep it (`Explained.activate`, `Explained.deactivate`), so every request
  does (`Explained.setActive`).
* `setActive_history` — **after any requests the table holds what the user had and what the active
  addons bring**, whichever steps failed on the way.
-/

import Reckoner.Proofs.Addon.Ownership

namespace Reckoner

/-! ### Registered references -/

namespace ScriptRegistry

theorem mem_refs_unregister {registry : ScriptRegistry} {gone ref : ScriptRef} :
    ref ∈ (registry.unregister gone).refs ↔ ref ∈ registry.refs ∧ ref ≠ gone := by
  unfold refs unregister
  simp only [List.mem_map, List.mem_filter, decide_eq_true_eq]
  constructor
  · rintro ⟨entry, ⟨member, different⟩, rfl⟩
    exact ⟨⟨entry, member, rfl⟩, different⟩
  · rintro ⟨⟨entry, member, rfl⟩, different⟩
    exact ⟨entry, ⟨member, different⟩, rfl⟩

theorem mem_refs_register {registry : ScriptRegistry} {new ref : ScriptRef} {callable : Callable} :
    ref ∈ (registry.register new callable).refs ↔ ref ∈ registry.refs ∨ ref = new := by
  have split : (registry.register new callable).refs = new :: (registry.unregister new).refs := rfl
  rw [split, List.mem_cons, mem_refs_unregister]
  by_cases same : ref = new
  · simp [same]
  · simp [same]

theorem mem_refs_foldl_unregister {gone : List ScriptRef} {registry : ScriptRegistry}
    {ref : ScriptRef} :
    ref ∈ (gone.foldl unregister registry).refs ↔ ref ∈ registry.refs ∧ ref ∉ gone := by
  induction gone generalizing registry with
  | nil => simp
  | cons first rest ih =>
    rw [List.foldl_cons, ih, mem_refs_unregister, List.mem_cons, not_or, and_assoc]

theorem mem_refs_foldl_register {scripts : List ScriptContribution} {registry : ScriptRegistry}
    {ref : ScriptRef} :
    ref ∈ (scripts.foldl (fun registry s => registry.register s.ref s.callable) registry).refs ↔
      ref ∈ registry.refs ∨ ref ∈ scripts.map ScriptContribution.ref := by
  induction scripts generalizing registry with
  | nil => simp
  | cons first rest ih =>
    rw [List.foldl_cons, ih, mem_refs_register, List.map_cons, List.mem_cons, or_assoc]

end ScriptRegistry

/-! ### Sources -/

/-- A source gives the same contribution for an addon, whenever it gives one. -/
def AddonSource.Steady {σ : Type} (source : AddonSource σ) (offer : String → Contribution) : Prop :=
  ∀ addon state contribution, (source.load addon state).1 = .ok contribution →
    contribution = offer addon

/-- Different addons bring different script references, none of which is registered already. -/
structure Separate (offer : String → Contribution) (registered : List ScriptRef) : Prop where
  apart : ∀ addon other ref, ref ∈ (offer addon).refs → ref ∈ (offer other).refs → addon = other
  fresh : ∀ addon ref, ref ∈ (offer addon).refs → ref ∉ registered

/-! ### Histories -/

namespace Workspace

variable {σ : Type} {source : AddonSource σ} {offer : String → Contribution}

/-- The workspace after some requests for sets of active addons. -/
def requestAll (source : AddonSource σ) (requests : List NameSet) (w : Workspace σ) :
    Workspace σ :=
  requests.foldl (fun w requested => (w.setActive source requested).2) w

/-- **An addon that cannot be activated changes nothing but the state of its source**, and one that
can be installs what it brings. -/
theorem activate_cases (steady : source.Steady offer) (addon : String) (w : Workspace σ) :
    ∃ state, (w.activate source addon).2 = { w with source := state } ∨
      (SymbolTable.conflict? w.table [] (offer addon).entries = none ∧
        (w.activate source addon).2 = { w with source := state }.accept addon (offer addon)) := by
  unfold activate
  rcases loaded : source.load addon w.source with ⟨error | contribution, state⟩
  · exact ⟨state, .inl rfl⟩
  · have brought : contribution = offer addon :=
      steady addon w.source contribution (by rw [loaded])
    subst brought
    simp only
    cases free : SymbolTable.conflict? w.table [] (offer addon).entries with
    | some error => exact ⟨(source.unload addon state).2, .inl rfl⟩
    | none => exact ⟨state, .inr ⟨rfl, rfl⟩⟩

/-- The workspace after some steps, whichever of them failed. -/
theorem performAll_snd (source : AddonSource σ) (steps : List AddonStep) (w : Workspace σ) :
    (performAll source steps w).2 = steps.foldl (fun w step => (w.perform source step).2) w := by
  induction steps generalizing w with
  | nil => rfl
  | cons step rest ih =>
    rw [List.foldl_cons, ← ih, performAll]
    simp only
    split <;> rfl

/-- A request deactivates the addons that it leaves out, and then activates those that are new. -/
theorem setActive_snd (source : AddonSource σ) (requested : NameSet) (w : Workspace σ) :
    (w.setActive source requested).2 =
      (requested.toList.filter (· ∉ w.active)).foldl
        (fun w addon => (w.activate source addon).2)
        ((w.active.keys.filter (· ∉ requested)).foldl
          (fun w addon => (w.deactivate source addon).2) w) := by
  rw [setActive, performAll_snd, plan, List.foldl_append, List.foldl_map, List.foldl_map]
  rfl

/-- What an addon has installed, or nothing if it is not active. -/
abbrev installed (w : Workspace σ) (addon : String) : Installed := w.active[addon]?.getD .none

/-- Deactivating an addon releases its entries and scripts, even if it cannot be unloaded. -/
theorem deactivate_snd (source : AddonSource σ) (addon : String) (w : Workspace σ) :
    (w.deactivate source addon).2 =
      ⟨((w.installed addon).symbols.foldl release (w.table, w.active.erase addon)).1,
        (w.installed addon).scripts.foldl ScriptRegistry.unregister w.scripts,
        ((w.installed addon).symbols.foldl release (w.table, w.active.erase addon)).2,
        (source.unload addon w.source).2⟩ := rfl

/-- Deactivating an addon makes it inactive, and no other. -/
theorem mem_deactivate {addon other : String} {w : Workspace σ} :
    other ∈ (w.deactivate source addon).2.active ↔ addon ≠ other ∧ other ∈ w.active := by
  rw [deactivate_snd, mem_foldl_release, Std.ExtTreeMap.mem_erase,
    ne_eq, Std.LawfulEqCmp.compare_eq_iff_eq]

theorem mem_foldl_deactivate {addons : List String} {other : String} {w : Workspace σ} :
    other ∈ (addons.foldl (fun w addon => (w.deactivate source addon).2) w).active ↔
      other ∉ addons ∧ other ∈ w.active := by
  induction addons generalizing w with
  | nil => simp
  | cons addon rest ih =>
    rw [List.foldl_cons, ih, mem_deactivate, List.mem_cons, not_or, and_left_comm, and_assoc,
      ne_comm]

/-- A request for no addons leaves none active. -/
theorem not_mem_setActive_empty {addon : String} {w : Workspace σ} :
    addon ∉ (w.setActive source ∅).2.active := by
  intro isActive
  have nothing : (∅ : NameSet).toList = [] := Std.ExtTreeSet.toList_eq_nil_iff.mpr rfl
  rw [setActive_snd, nothing, List.filter_nil, List.foldl_nil] at isActive
  obtain ⟨kept, wasActive⟩ := mem_foldl_deactivate.mp isActive
  refine kept (List.mem_filter.mpr ⟨Std.ExtTreeMap.mem_keys.mpr wasActive, ?_⟩)
  exact decide_eq_true Std.ExtTreeSet.not_mem_empty

/-- The active addons after one has been installed. -/
theorem mem_accept {addon other : String} {contribution : Contribution} {w : Workspace σ} :
    other ∈ (w.accept addon contribution).active ↔ addon = other ∨ other ∈ w.active := by
  show other ∈ w.active.insert addon _ ↔ _
  rw [Std.ExtTreeMap.mem_insert, Std.LawfulEqCmp.compare_eq_iff_eq]

/-- An addon that is installed puts what it brings into the table and the registry. -/
theorem accept_eq (w : Workspace σ) (addon : String) (contribution : Contribution) :
    w.accept addon contribution =
      ⟨(contribution.entries.foldl install (w.table, ⟨[], [], contribution.refs⟩)).1,
        contribution.scripts.foldl (fun scripts s => scripts.register s.ref s.callable) w.scripts,
        w.active.insert addon
          (contribution.entries.foldl install (w.table, ⟨[], [], contribution.refs⟩)).2,
        w.source⟩ := rfl

/-- Activating an addon makes no other one active. -/
theorem mem_of_mem_activate (steady : source.Steady offer) {addon other : String} {w : Workspace σ}
    (isActive : other ∈ (w.activate source addon).2.active) : addon = other ∨ other ∈ w.active := by
  obtain ⟨state, unchanged | ⟨-, accepted⟩⟩ := activate_cases steady addon w
  · rw [unchanged] at isActive
    exact .inr isActive
  · rw [accepted] at isActive
    exact mem_accept.mp isActive

end Workspace

/-! ### What explains a workspace -/

/-- **The entries of the table come from their owners, and the registered scripts from the active
addons** and from those registered at first. -/
structure Explained {σ : Type} (offer : String → Contribution) (user : SymbolTable)
    (registered : List ScriptRef) (w : Workspace σ) : Prop where
  ownership : Ownership offer user w.table w.active []
  scripts : ∀ ref, ref ∈ w.scripts.refs ↔
    ref ∈ registered ∨ ∃ addon ∈ w.active, ref ∈ (offer addon).refs

namespace Explained

variable {σ : Type} {source : AddonSource σ} {offer : String → Contribution} {user : SymbolTable}
  {registered : List ScriptRef} {w : Workspace σ}

/-- The state of the source explains nothing. -/
theorem withSource (explained : Explained offer user registered w) (state : σ) :
    Explained offer user registered { w with source := state } :=
  ⟨explained.ownership, explained.scripts⟩

/-- **Installing an addon that conflicts with nothing** leaves everything explained. -/
theorem accept (explained : Explained offer user registered w) {addon : String}
    (inactive : addon ∉ w.active)
    (free : SymbolTable.conflict? w.table [] (offer addon).entries = none) :
    Explained offer user registered (w.accept addon (offer addon)) := by
  obtain ⟨distinct, -, fits⟩ := SymbolTable.conflict?_eq_none free
  have absent : w.active[addon]? = none := by
    rw [Std.ExtTreeMap.mem_iff_isSome_getElem?] at inactive
    simpa using inactive
  have before : Ownership offer user w.table w.active
      (Installed.mk [] [] (offer addon).refs).symbols := explained.ownership
  have installation := @Workspace.foldl_install w.table ⟨[], [], (offer addon).refs⟩ _ distinct fits
  have result := Workspace.accept_eq w addon (offer addon)
  refine ⟨?_, fun ref => ?_⟩
  · rw [result]
    exact (before.installAll distinct fits).attach absent (installation.shares distinct)
      installation.held
  · have others : (∃ other ∈ (w.accept addon (offer addon)).active, ref ∈ (offer other).refs) ↔
        ref ∈ (offer addon).refs ∨ ∃ other ∈ w.active, ref ∈ (offer other).refs := by
      simp only [Workspace.mem_accept, or_and_right, exists_or, exists_eq_left']
    rw [others]
    rw [result]
    rw [ScriptRegistry.mem_refs_foldl_register, explained.scripts]
    show _ ∨ ref ∈ (offer addon).refs ↔ _
    rw [or_assoc, or_comm (b := ref ∈ (offer addon).refs)]

/-- **Activating an addon** leaves everything explained, whether it succeeds or not. -/
theorem activate (steady : source.Steady offer) (explained : Explained offer user registered w)
    {addon : String} (inactive : addon ∉ w.active) :
    Explained offer user registered (w.activate source addon).2 := by
  obtain ⟨state, unchanged | ⟨free, accepted⟩⟩ := Workspace.activate_cases steady addon w
  · rw [unchanged]
    exact explained.withSource state
  · rw [accepted]
    exact (explained.withSource state).accept inactive free

/-- **Deactivating an addon** leaves everything explained, whether it can be unloaded or not. -/
theorem deactivate (separate : Separate offer registered)
    (explained : Explained offer user registered w) (addon : String) :
    Explained offer user registered (w.deactivate source addon).2 := by
  have others (ref : ScriptRef) :
      (∃ other ∈ (w.deactivate source addon).2.active, ref ∈ (offer other).refs) ↔
        ∃ other ∈ w.active, addon ≠ other ∧ ref ∈ (offer other).refs := by
    simp only [Workspace.mem_deactivate, and_assoc, and_left_comm]
  refine ⟨?_, fun ref => ?_⟩
  · rw [Workspace.deactivate_snd]
    cases found : w.active[addon]? with
    | some installed =>
      have detached := explained.ownership.detach found
      rw [Workspace.installed, found]
      exact detached.releaseAll
    | none =>
      have unchanged : w.active.erase addon = w.active := by
        refine Std.ExtTreeMap.ext_getElem? fun other => ?_
        rw [NameMap.getElem?_erase]
        split
        · subst addon
          exact found.symm
        · rfl
      rw [Workspace.installed, found, unchanged]
      exact explained.ownership
  · have own : ref ∈ (w.installed addon).scripts ↔ addon ∈ w.active ∧ ref ∈ (offer addon).refs := by
      rw [Workspace.installed, Std.ExtTreeMap.mem_iff_isSome_getElem?]
      cases found : w.active[addon]? with
      | none => exact iff_of_false List.not_mem_nil nofun
      | some installed =>
        rw [Option.getD_some, (explained.ownership.shares addon installed found).scripts]
        exact (and_iff_right rfl).symm
    rw [others]
    rw [Workspace.deactivate_snd]
    rw [ScriptRegistry.mem_refs_foldl_unregister, explained.scripts, own]
    constructor
    · rintro ⟨atFirst | ⟨other, isActive, brought⟩, notOwn⟩
      · exact .inl atFirst
      · refine .inr ⟨other, isActive, ?_, brought⟩
        rintro rfl
        exact notOwn ⟨isActive, brought⟩
    · rintro (atFirst | ⟨other, isActive, different, brought⟩)
      · exact ⟨.inl atFirst, fun own => separate.fresh addon ref own.2 atFirst⟩
      · exact ⟨.inr ⟨other, isActive, brought⟩,
          fun own => different (separate.apart addon other ref own.2 brought)⟩

theorem foldl_deactivate (separate : Separate offer registered) (addons : List String)
    (explained : Explained offer user registered w) :
    Explained offer user registered
      (addons.foldl (fun w addon => (w.deactivate source addon).2) w) := by
  induction addons generalizing w with
  | nil => exact explained
  | cons addon rest ih => exact ih (explained.deactivate separate addon)

theorem foldl_activate (steady : source.Steady offer) {addons : List String}
    (distinct : addons.Nodup) (explained : Explained offer user registered w)
    (inactive : ∀ addon ∈ addons, addon ∉ w.active) :
    Explained offer user registered
      (addons.foldl (fun w addon => (w.activate source addon).2) w) := by
  induction addons generalizing w with
  | nil => exact explained
  | cons addon rest ih =>
    obtain ⟨notLater, distinct⟩ := List.nodup_cons.mp distinct
    obtain ⟨inactiveNow, inactiveLater⟩ := List.forall_mem_cons.mp inactive
    refine ih distinct (explained.activate steady inactiveNow) fun other member isActive => ?_
    rcases Workspace.mem_of_mem_activate steady isActive with rfl | before
    · exact notLater member
    · exact inactiveLater other member before

/-- **A request for a set of active addons** leaves everything explained, whichever steps fail. -/
theorem setActive (steady : source.Steady offer) (separate : Separate offer registered)
    (explained : Explained offer user registered w) (requested : NameSet) :
    Explained offer user registered (w.setActive source requested).2 := by
  have distinct : requested.toList.Nodup := by
    refine Std.ExtTreeSet.distinct_toList.imp fun different same => ?_
    exact different (Std.LawfulEqCmp.compare_eq_iff_eq.mpr same)
  rw [Workspace.setActive_snd]
  refine (explained.foldl_deactivate separate _).foldl_activate steady (distinct.filter _)
    fun addon member isActive => ?_
  -- What is to be activated was not active before, and deactivations activate nothing.
  have wasActive := (Workspace.mem_foldl_deactivate.mp isActive).2
  exact of_decide_eq_true (List.mem_filter.mp member).2 wasActive

theorem requestAll (steady : source.Steady offer) (separate : Separate offer registered)
    (requests : List NameSet) (explained : Explained offer user registered w) :
    Explained offer user registered (w.requestAll source requests) := by
  induction requests generalizing w with
  | nil => exact explained
  | cons requested rest ih => exact ih (explained.setActive steady separate requested)

/-! ### What an explained workspace holds -/

/-- A name that is not the user's stands for what an active addon brings. -/
theorem holds_iff (explained : Explained offer user registered w) {name : String}
    (foreign : user[name]? = none) (symbol : Symbol) :
    SymbolTable.holds w.table name symbol ↔
      ∃ addon ∈ w.active, (offer addon).Brings name symbol := by
  have ownership := explained.ownership
  constructor
  · intro held
    rcases ownership.explained name (SymbolTable.ne_none_of_holds held) with
      byUser | ⟨addon, installed, found, member⟩ | none
    · exact absurd foreign byUser
    · obtain ⟨entry, owned, rfl⟩ := List.mem_map.mp member
      have brought := (ownership.shares addon installed found).mem_of_owned owned
      refine ⟨addon, ?_, entry, brought, rfl, ?_⟩
      · rw [Std.ExtTreeMap.mem_iff_isSome_getElem?, found]
        rfl
      · exact SymbolTable.same_of_holds (ownership.held addon installed found entry brought) held
    · cases none
  · rintro ⟨addon, isActive, entry, brought, rfl, same⟩
    rw [Std.ExtTreeMap.mem_iff_isSome_getElem?] at isActive
    obtain ⟨installed, found⟩ := Option.isSome_iff_exists.mp isActive
    obtain ⟨existing, present, equal⟩ :=
      SymbolTable.holds_iff.mp (ownership.held addon installed found entry brought)
    exact SymbolTable.holds_iff.mpr ⟨existing, present, Symbol.same_trans equal same⟩

/-- Without active addons the table is the user's. -/
theorem table_eq (explained : Explained offer user registered w)
    (inactive : ∀ addon, addon ∉ w.active) : w.table = user := by
  refine Std.ExtTreeMap.ext_getElem? fun name => ?_
  cases byUser : user[name]? with
  | some symbol => exact explained.ownership.kept name symbol byUser
  | none =>
    cases found : w.table[name]? with
    | none => rfl
    | some symbol =>
      obtain ⟨addon, isActive, -⟩ :=
        (explained.holds_iff byUser symbol).mp (SymbolTable.holds_of_getElem? found)
      exact absurd isActive (inactive addon)

end Explained

namespace Workspace

/-- Entries that the table holds, or that are gone already, are taken out. -/
theorem getElem?_foldl_withoutEntry {entries : List (String × Symbol)} {table : SymbolTable}
    (held : ∀ entry ∈ entries, table[entry.1]? = none ∨ table.holds entry.1 entry.2)
    (name : String) :
    (entries.foldl withoutEntry table)[name]? =
      if name ∈ entries.map Prod.fst then none else table[name]? := by
  induction entries generalizing table with
  | nil => rfl
  | cons entry rest ih =>
    obtain ⟨heldNow, heldLater⟩ := List.forall_mem_cons.mp held
    have without (other : String) : (withoutEntry table entry)[other]? =
        if entry.1 = other then none else table[other]? := by
      unfold withoutEntry
      split
      · rw [NameMap.getElem?_erase]
      · rename_i notHeld
        split
        · subst other
          exact heldNow.resolve_right notHeld
        · rfl
    have stillHeld : ∀ other ∈ rest, (withoutEntry table entry)[other.1]? = none ∨
        SymbolTable.holds (withoutEntry table entry) other.1 other.2 := by
      intro other member
      by_cases same : entry.1 = other.1
      · exact .inl (by rw [without, if_pos same])
      · have unchanged : (withoutEntry table entry)[other.1]? = table[other.1]? := by
          rw [without, if_neg same]
        rcases heldLater other member with gone | present
        · exact .inl (unchanged.trans gone)
        · exact .inr (SymbolTable.holds_congr unchanged present)
    rw [List.foldl_cons, ih stillHeld, without, List.map_cons]
    by_cases same : entry.1 = name
    · simp [same]
    · have later : name ∈ entry.1 :: rest.map Prod.fst ↔ name ∈ rest.map Prod.fst := by
        rw [List.mem_cons, or_iff_right (Ne.symm same)]
      simp only [if_neg same, later]

/-- **The user symbols of an explained workspace are those of the user.** -/
theorem userSymbols_eq {σ : Type} {offer : String → Contribution} {user : SymbolTable}
    {registered : List ScriptRef} {w : Workspace σ}
    (explained : Explained offer user registered w) : w.userSymbols = user := by
  have ownership := explained.ownership
  let owned := w.active.toList.flatMap fun entry => entry.2.symbols
  have mem_owned (name : String) :
      name ∈ owned.map Prod.fst ↔ ∃ addon, Owns w.active addon name := by
    constructor
    · intro member
      obtain ⟨entry, isOwned, rfl⟩ := List.mem_map.mp member
      obtain ⟨⟨addon, installed⟩, isActive, own⟩ := List.mem_flatMap.mp isOwned
      exact ⟨addon, installed, Std.ExtTreeMap.mem_toList_iff_getElem?_eq_some.mp isActive,
        List.mem_map_of_mem own⟩
    · rintro ⟨addon, installed, found, member⟩
      obtain ⟨entry, own, rfl⟩ := List.mem_map.mp member
      exact List.mem_map_of_mem (List.mem_flatMap.mpr ⟨(addon, installed),
        Std.ExtTreeMap.mem_toList_iff_getElem?_eq_some.mpr found, own⟩)
  have held : ∀ entry ∈ owned, w.table[entry.1]? = none ∨
      SymbolTable.holds w.table entry.1 entry.2 := by
    intro entry isOwned
    obtain ⟨⟨addon, installed⟩, isActive, own⟩ := List.mem_flatMap.mp isOwned
    have found := Std.ExtTreeMap.mem_toList_iff_getElem?_eq_some.mp isActive
    exact .inr (ownership.held addon installed found entry
      ((ownership.shares addon installed found).mem_of_owned own))
  refine Std.ExtTreeMap.ext_getElem? fun name => ?_
  show (owned.foldl withoutEntry w.table)[name]? = user[name]?
  rw [getElem?_foldl_withoutEntry held]
  by_cases isOwned : name ∈ owned.map Prod.fst
  · obtain ⟨addon, owns⟩ := (mem_owned name).mp isOwned
    rw [if_pos isOwned, ownership.foreign addon name owns]
  · rw [if_neg isOwned]
    cases byUser : user[name]? with
    | some symbol => exact ownership.kept name symbol byUser
    | none =>
      cases found : w.table[name]? with
      | none => rfl
      | some symbol =>
        rcases ownership.explained name (by rw [found]; exact Option.some_ne_none _) with
          some | owns | none
        · exact absurd byUser some
        · exact absurd ((mem_owned name).mpr owns) isOwned
        · cases none

/-- **What any history of addons leaves behind.** After any requests, whichever of their steps
failed: every name of the user has its entry; another name stands for a symbol exactly if an active
addon brings it, up to precision labels; the user symbols are those of the user; and the references
that have been registered are those of the active addons. A request for no addons leaves the table
of the user, no active addon and no reference of one. -/
theorem setActive_history {σ : Type} (source : AddonSource σ) (offer : String → Contribution)
    (steady : source.Steady offer) (w : Workspace σ) (inactive : w.active = ∅)
    (separate : Separate offer w.scripts.refs) (requests : List NameSet) :
    (∀ (name : String) (symbol : Symbol), w.table[name]? = some symbol →
      (w.requestAll source requests).table[name]? = some symbol) ∧
    (∀ name : String, w.table[name]? = none → ∀ symbol,
      (SymbolTable.holds (w.requestAll source requests).table name symbol ↔
        ∃ addon ∈ (w.requestAll source requests).active, (offer addon).Brings name symbol)) ∧
    (w.requestAll source requests).userSymbols = w.table ∧
    (∀ ref, ref ∈ (w.requestAll source requests).scripts.refs ↔ ref ∈ w.scripts.refs ∨
      ∃ addon ∈ (w.requestAll source requests).active, ref ∈ (offer addon).refs) ∧
    (((w.requestAll source requests).setActive source ∅).2.table = w.table ∧
      ((w.requestAll source requests).setActive source ∅).2.active = ∅ ∧
      ∀ ref, ref ∈ ((w.requestAll source requests).setActive source ∅).2.scripts.refs ↔
        ref ∈ w.scripts.refs) := by
  have atFirst : Explained offer w.table w.scripts.refs w := by
    refine ⟨?_, fun ref => ?_⟩
    · rw [inactive]
      exact Ownership.initial offer w.table
    · rw [inactive]
      simp
  have explained := atFirst.requestAll steady separate requests
  have cleared := explained.setActive steady separate ∅
  have noneActive (addon : String) :
      addon ∉ ((w.requestAll source requests).setActive source ∅).2.active := not_mem_setActive_empty
  refine ⟨explained.ownership.kept, fun name foreign symbol => explained.holds_iff foreign symbol,
    userSymbols_eq explained, explained.scripts, cleared.table_eq noneActive,
    Std.ExtTreeMap.ext_getElem? fun addon => ?_, fun ref => ?_⟩
  · have absent := noneActive addon
    rw [Std.ExtTreeMap.mem_iff_isSome_getElem?] at absent
    simpa using absent
  · rw [cleared.scripts]
    refine or_iff_left ?_
    rintro ⟨addon, isActive, -⟩
    exact noneActive addon isActive

/-- What a small addon brings: a constant and a script. -/
def dozens : Contribution where
  symbols := [("dozen", .constant ⟨⟨.ofInt 12, 4⟩, some 0⟩)]
  scripts := [⟨"same", ⟨"dozens", "same", 1⟩, fun arguments => .ok (arguments.headD (.zero false))⟩]

/-- A source of that addon alone. -/
def dozensSource : AddonSource Unit where
  discover _ := .ok ∅
  load addon state := (if addon = "dozens" then .ok dozens else .error (.notFound addon), state)
  unload addon state := (.error (.notFound addon), state)

/-- An addon that cannot even be unloaded leaves nothing behind. -/
theorem setActive_history_dozens :
    let w := (initial ()).requestAll dozensSource [.ofList ["dozens", "scores"] compare]
    w.userSymbols = (initial ()).table ∧
      (w.setActive dozensSource ∅).2.table = (initial ()).table := by
  let offer (addon : String) : Contribution := if addon = "dozens" then dozens else ⟨[], []⟩
  have brings {addon : String} {ref : ScriptRef} (brought : ref ∈ (offer addon).refs) :
      addon = "dozens" := by
    by_cases same : addon = "dozens"
    · exact same
    · simp [offer, same, Contribution.refs] at brought
  have steady : dozensSource.Steady offer := by
    intro addon state contribution loaded
    by_cases same : addon = "dozens"
    · simp only [dozensSource, same, if_true, Except.ok.injEq] at loaded
      simp only [offer, same, if_true, loaded]
    · simp only [dozensSource, same, if_false] at loaded
      cases loaded
  have separate : Separate offer (initial ()).scripts.refs := by
    refine ⟨fun addon other ref here there => ?_, fun _ _ _ => List.not_mem_nil⟩
    rw [brings here, brings there]
  obtain ⟨-, -, user, -, table, -⟩ :=
    setActive_history dozensSource offer steady (initial ()) rfl separate
      [.ofList ["dozens", "scores"] compare]
  exact ⟨user, table⟩

end Workspace

end Reckoner
