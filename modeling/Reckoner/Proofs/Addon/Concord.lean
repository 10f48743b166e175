/-
Addons that contradict neither each other nor the table can all be activated, in any order.

* `AddonSource.Fixed` — an addon is always loaded with the same result.
* `Agreeing` — entries of some kind agree if those under one name are the same symbol.
* `Workspace.setActive_agreeing` — **addons all become active if all entries agree**: those of the
  table and those that the addons bring.
* `Workspace.Loadable` — all active addons can be loaded. Requests keep this.
-/

import Reckoner.Proofs.Addon.Steps
import Reckoner.Proofs.Addon.Succession

namespace Reckoner

/-! ### Sources -/

/-- An addon is always loaded with the same result. -/
def AddonSource.Fixed {σ : Type} (source : AddonSource σ)
    (result : String → Except AddonError Contribution) : Prop :=
  ∀ addon state, (source.load addon state).1 = result addon

/-- What an addon brings, or nothing if it cannot be loaded. -/
def offerOf (result : String → Except AddonError Contribution) (addon : String) : Contribution :=
  (result addon).toOption.getD ⟨[], []⟩

theorem offerOf_eq {result : String → Except AddonError Contribution} {addon : String}
    {contribution : Contribution} (loaded : result addon = .ok contribution) :
    offerOf result addon = contribution := by
  unfold offerOf
  rw [loaded]
  rfl

/-- An addon that brings something can be loaded. -/
theorem exists_of_mem_offerOf {result : String → Except AddonError Contribution} {addon : String}
    {entry : String × Symbol} (brought : entry ∈ (offerOf result addon).entries) :
    ∃ contribution, result addon = .ok contribution ∧ entry ∈ contribution.entries := by
  cases loaded : result addon with
  | error error =>
    unfold offerOf at brought
    rw [loaded] at brought
    cases brought
  | ok contribution =>
    rw [offerOf_eq loaded] at brought
    exact ⟨contribution, rfl, brought⟩

theorem AddonSource.Fixed.steady {σ : Type} {source : AddonSource σ}
    {result : String → Except AddonError Contribution} (fixed : source.Fixed result) :
    source.Steady (offerOf result) := by
  intro addon state contribution loaded
  rw [fixed] at loaded
  exact (offerOf_eq loaded).symm

/-! ### Entries that agree -/

/-- Entries of some kind agree if those under one name are the same symbol. -/
def Agreeing (allowed : String → Symbol → Prop) : Prop :=
  ∀ name a b, allowed name a → allowed name b → a.same b

/-- Entries with different names join a table with which they agree. -/
theorem SymbolTable.conflict?_of_fits {table : SymbolTable} {entries : List (String × Symbol)}
    {seen : List String} (distinct : (entries.map Prod.fst).Nodup)
    (unseen : ∀ entry ∈ entries, entry.1 ∉ seen) (fits : table.Fits entries) :
    table.conflict? seen entries = none := by
  induction entries generalizing seen with
  | nil => rfl
  | cons entry rest ih =>
    obtain ⟨name, symbol⟩ := entry
    obtain ⟨notLater, distinct⟩ := List.nodup_cons.mp distinct
    obtain ⟨unseenNow, unseenLater⟩ := List.forall_mem_cons.mp unseen
    obtain ⟨fitsNow, fitsLater⟩ := List.forall_mem_cons.mp fits
    have joined : table.conflict? (name :: seen) rest = none := by
      refine ih distinct (fun other later => ?_) fitsLater
      rw [List.mem_cons, not_or]
      exact ⟨fun same => notLater (List.mem_map.mpr ⟨other, later, same⟩), unseenLater other later⟩
    rw [conflict?, if_neg unseenNow]
    cases found : table[name]? with
    | none => exact joined
    | some existing =>
      have present : table[name]? ≠ none := by
        rw [found]
        exact Option.some_ne_none existing
      obtain ⟨other, again, same⟩ := holds_iff.mp (fitsNow.resolve_left present)
      rw [found] at again
      cases again
      simp only [same, if_true]
      exact joined

namespace Workspace

variable {σ : Type} {source : AddonSource σ} {result : String → Except AddonError Contribution}
  {allowed : String → Symbol → Prop} {w : Workspace σ}

/-- All entries of the table are allowed. -/
def Within (allowed : String → Symbol → Prop) (w : Workspace σ) : Prop :=
  ∀ (name : String) (symbol : Symbol), w.table[name]? = some symbol → allowed name symbol

/-- What an addon brings can join a table if all of it is allowed. -/
theorem accepts_of_agreeing (agreeing : Agreeing allowed) (within : w.Within allowed)
    {addon : String} {contribution : Contribution}
    (loaded : (source.load addon w.source).1 = .ok contribution)
    (distinct : (contribution.entries.map Prod.fst).Nodup)
    (brought : ∀ entry ∈ contribution.entries, allowed entry.1 entry.2) :
    w.Accepts source addon contribution := by
  refine ⟨loaded, SymbolTable.conflict?_of_fits distinct (fun _ _ => List.not_mem_nil) ?_⟩
  intro entry member
  cases found : w.table[entry.1]? with
  | none => exact .inl rfl
  | some existing =>
    have same := agreeing entry.1 existing entry.2 (within _ _ found) (brought entry member)
    exact .inr (SymbolTable.holds_iff.mpr ⟨existing, found, same⟩)

/-- An addon can be loaded, and all it brings is allowed, without a repeated name. -/
def Joins (result : String → Except AddonError Contribution) (allowed : String → Symbol → Prop)
    (addon : String) : Prop :=
  ∃ contribution, result addon = .ok contribution ∧ (contribution.entries.map Prod.fst).Nodup ∧
    ∀ entry ∈ contribution.entries, allowed entry.1 entry.2

theorem performAll_agreeing (fixed : source.Fixed result) (agreeing : Agreeing allowed)
    {steps : List AddonStep} (activations : ∀ step ∈ steps, step.operation = .activate)
    (joins : ∀ step ∈ steps, Joins result allowed step.addon) (within : w.Within allowed) :
    (performAll source steps w).1 = [] := by
  induction steps generalizing w with
  | nil => rfl
  | cons step rest ih =>
    obtain ⟨activates, later⟩ := List.forall_mem_cons.mp activations
    obtain ⟨⟨contribution, loaded, distinct, brought⟩, joinLater⟩ := List.forall_mem_cons.mp joins
    have accepts : w.Accepts source step.addon contribution :=
      accepts_of_agreeing agreeing within (by rw [fixed, loaded]) distinct brought
    have succeeded : (w.perform source step).1 = .ok () := by
      rw [perform_of_activates activates, activate_of_accepts accepts]
    have stillWithin : (w.perform source step).2.Within allowed := by
      intro name symbol found
      rw [perform_of_activates activates] at found
      rcases getElem?_activate_cases found with before | ⟨other, ⟨again, -⟩, joined⟩
      · exact within name symbol before
      · rw [fixed, loaded] at again
        cases again
        exact brought _ joined
    rw [performAll_cons, succeeded, ih later joinLater stillWithin]
    rfl

/-- **Addons all become active if all entries agree**: those of the table and those that the addons
bring. -/
theorem setActive_agreeing (fixed : source.Fixed result) (agreeing : Agreeing allowed)
    (inactive : ∀ addon, addon ∉ w.active) {requested : NameSet}
    (joins : ∀ addon ∈ requested, Joins result allowed addon) (within : w.Within allowed) :
    (w.setActive source requested).1 = [] ∧ (w.setActive source requested).2.activeSet = requested := by
  have activations := w.plan_of_inactive inactive requested
  have none : (w.setActive source requested).1 = [] := by
    refine performAll_agreeing fixed agreeing activations (fun step planned => ?_) within
    rcases mem_plan.mp planned with ⟨deactivates, -⟩ | ⟨-, isRequested, -⟩
    · rw [activations step planned] at deactivates
      cases deactivates
    · exact joins step.addon isRequested
  refine ⟨none, Std.ExtTreeSet.ext_mem fun addon => ?_⟩
  have unfailed : failed source (w.plan requested) w = [] := congrArg (List.map _) none
  rw [mem_activeSet, mem_setActive_iff, unfailed]
  exact and_iff_left List.not_mem_nil

/-- Deactivations do not fail if no unload does. -/
theorem performAll_deactivate_fst (unloads : ∀ addon state, (source.unload addon state).1 = .ok ())
    {steps : List AddonStep} (deactivations : ∀ step ∈ steps, step.operation = .deactivate) :
    (performAll source steps w).1 = [] := by
  induction steps generalizing w with
  | nil => rfl
  | cons step rest ih =>
    obtain ⟨deactivates, later⟩ := List.forall_mem_cons.mp deactivations
    obtain ⟨operation, addon⟩ := step
    subst deactivates
    have succeeded : (w.perform source ⟨.deactivate, addon⟩).1 = .ok () := unloads addon w.source
    rw [performAll_cons, succeeded, ih later]
    rfl

theorem setActive_empty_fst (unloads : ∀ addon state, (source.unload addon state).1 = .ok ()) :
    (w.setActive source ∅).1 = [] := by
  refine performAll_deactivate_fst unloads fun step planned => ?_
  rcases mem_plan.mp planned with ⟨deactivates, -⟩ | ⟨-, requested, -⟩
  · exact deactivates
  · exact absurd requested Std.ExtTreeSet.not_mem_empty

/-- All active addons can be loaded. -/
def Loadable (result : String → Except AddonError Contribution) (w : Workspace σ) : Prop :=
  ∀ addon ∈ w.active, ∃ contribution, result addon = .ok contribution

/-- **Active addons can be loaded** after any request. -/
theorem Loadable.setActive (fixed : source.Fixed result) (loadable : w.Loadable result)
    (requested : NameSet) : (w.setActive source requested).2.Loadable result := by
  refine setActive_induction (motive := Loadable result) (fun w addon loadable other isActive => ?_)
    (fun w addon loadable other isActive => loadable other (mem_deactivate.mp isActive).2) requested
    loadable
  rcases mem_activate.mp isActive with before | ⟨rfl, succeeded⟩
  · exact loadable other before
  · rcases activate_outcome source addon w with ⟨contribution, ⟨loaded, -⟩, -⟩ |
      ⟨error, -, failed⟩ | ⟨contribution, -, loaded, -⟩
    · exact ⟨contribution, by rw [← fixed addon w.source, loaded]⟩
    · rw [failed] at succeeded
      cases succeeded
    · exact ⟨contribution, by rw [← fixed addon w.source, loaded]⟩

/-- An active addon can be loaded, and brings no name twice. -/
theorem Loadable.exists_contribution (loadable : w.Loadable result)
    (sharing : Sharing (offerOf result) w.active) {addon : String} (isActive : addon ∈ w.active) :
    ∃ contribution, result addon = .ok contribution ∧
      (contribution.entries.map Prod.fst).Nodup := by
  obtain ⟨contribution, loaded⟩ := loadable addon isActive
  obtain ⟨installed, found⟩ :=
    Option.isSome_iff_exists.mp (Std.ExtTreeMap.mem_iff_isSome_getElem?.mp isActive)
  have distinct := (sharing addon installed found).distinct
  rw [offerOf_eq loaded] at distinct
  exact ⟨contribution, loaded, distinct⟩

end Workspace

end Reckoner
