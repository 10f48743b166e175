/-
What the steps toward a set of active addons do, over any source.

Nothing is assumed about the source: a load or an unload may succeed at one time and fail at another,
and an addon may bring something else each time.

* `Workspace.Accepts` — an addon is loaded, and what it brings can join the table.
* `Workspace.activate_outcome` — **an activation succeeds exactly if the addon is accepted**, and
  otherwise changes nothing but the state of the source.
* `Workspace.visits` — the steps of a request, each with the workspace in which it is taken.
* `Workspace.performAll_fst` — there is one report for each step that fails.
* `Workspace.mem_setActive_iff` — **after a request those requested addons are active whose
  activation did not fail.**
* `Workspace.getElem?_performAll_cases` — an entry that activations add to the table is brought by an
  addon that they make active.
-/

import Mathlib.Data.List.Nodup
import Reckoner.Proofs.Addon.History
import Reckoner.Proofs.Outcome

namespace Reckoner

namespace Workspace

variable {σ : Type} {source : AddonSource σ} {addon other : String} {contribution : Contribution}
  {w : Workspace σ}

/-! ### One step -/

/-- **An addon is loaded, and what it brings can join the table**: no name is repeated or stands for
another symbol. -/
def Accepts (source : AddonSource σ) (addon : String) (contribution : Contribution)
    (w : Workspace σ) : Prop :=
  (source.load addon w.source).1 = .ok contribution ∧
    SymbolTable.conflict? w.table [] contribution.entries = none

/-- **An activation succeeds exactly if the addon is accepted.** An addon that cannot be loaded, or
that is refused and unloaded again, changes nothing but the state of the source. -/
theorem activate_outcome (source : AddonSource σ) (addon : String) (w : Workspace σ) :
    (∃ contribution, w.Accepts source addon contribution ∧ w.activate source addon =
      (.ok (), { w with source := (source.load addon w.source).2 }.accept addon contribution)) ∨
    (∃ error, (source.load addon w.source).1 = .error error ∧ w.activate source addon =
      (.error error, { w with source := (source.load addon w.source).2 })) ∨
    (∃ contribution error, (source.load addon w.source).1 = .ok contribution ∧
      SymbolTable.conflict? w.table [] contribution.entries = some error ∧
      w.activate source addon = (.error error,
        { w with source := (source.unload addon (source.load addon w.source).2).2 })) := by
  unfold activate Accepts
  rcases source.load addon w.source with ⟨error | contribution, state⟩
  · exact .inr (.inl ⟨error, rfl, rfl⟩)
  · cases free : SymbolTable.conflict? w.table [] contribution.entries with
    | some error => exact .inr (.inr ⟨contribution, error, rfl, free, by simp only [free]⟩)
    | none => exact .inl ⟨contribution, ⟨rfl, free⟩, by simp only [free]⟩

theorem activate_of_accepts (accepts : w.Accepts source addon contribution) :
    w.activate source addon =
      (.ok (), { w with source := (source.load addon w.source).2 }.accept addon contribution) := by
  obtain ⟨loaded, free⟩ := accepts
  rcases activate_outcome source addon w with ⟨found, ⟨again, -⟩, result⟩ |
    ⟨error, failed, -⟩ | ⟨found, error, again, refused, -⟩
  · rw [loaded] at again
    cases again
    exact result
  · rw [loaded] at failed
    cases failed
  · rw [loaded] at again
    cases again
    rw [free] at refused
    cases refused

/-- The active addons after a step that makes one active. -/
theorem mem_activate :
    other ∈ (w.activate source addon).2.active ↔
      other ∈ w.active ∨ (addon = other ∧ (w.activate source addon).1.isOk) := by
  rcases activate_outcome source addon w with ⟨contribution, -, result⟩ | ⟨error, -, result⟩ |
    ⟨_, error, -, -, result⟩
  · rw [result]
    show other ∈ (accept _ addon contribution).active ↔ _
    rw [mem_accept, or_comm]
    exact or_congr_right (and_iff_left rfl).symm
  · simp [result, Except.isOk, Except.toBool]
  · simp [result, Except.isOk, Except.toBool]

/-! ### Some steps -/

theorem performAll_cons (source : AddonSource σ) (step : AddonStep) (rest : List AddonStep)
    (w : Workspace σ) :
    performAll source (step :: rest) w =
      (((failure? (w.perform source step).1).map (AddonFailure.mk step)).toList ++
          (performAll source rest (w.perform source step).2).1,
        (performAll source rest (w.perform source step).2).2) := by
  rw [performAll]
  simp only
  split
  · rename_i succeeded
    rw [succeeded]
    rfl
  · rename_i error failed
    rw [failed]
    rfl

theorem performAll_append (source : AddonSource σ) (first second : List AddonStep)
    (w : Workspace σ) :
    performAll source (first ++ second) w =
      ((performAll source first w).1 ++ (performAll source second (performAll source first w).2).1,
        (performAll source second (performAll source first w).2).2) := by
  induction first generalizing w with
  | nil => rfl
  | cons step rest ih =>
    rw [List.cons_append, performAll_cons, performAll_cons, ih, List.append_assoc]

/-- The steps that are taken, each with the workspace in which it is taken. -/
def visits (source : AddonSource σ) : List AddonStep → Workspace σ →
    List (AddonStep × Workspace σ)
  | [], _ => []
  | step :: rest, w => (step, w) :: visits source rest (w.perform source step).2

/-- The report of a step, if it fails in its workspace. -/
def failureAt? (source : AddonSource σ) (visit : AddonStep × Workspace σ) : Option AddonFailure :=
  (failure? (visit.2.perform source visit.1).1).map (AddonFailure.mk visit.1)

/-- **There is one report for each step that fails.** -/
theorem performAll_fst (source : AddonSource σ) (steps : List AddonStep) (w : Workspace σ) :
    (performAll source steps w).1 = (visits source steps w).filterMap (failureAt? source) := by
  induction steps generalizing w with
  | nil => rfl
  | cons step rest ih =>
    rw [performAll_cons, visits, List.filterMap_cons, failureAt?, ih]
    cases (failure? (w.perform source step).1).map (AddonFailure.mk step) <;> rfl

/-- The steps that fail, in their order. -/
def failed (source : AddonSource σ) (steps : List AddonStep) (w : Workspace σ) : List AddonStep :=
  (performAll source steps w).1.map AddonFailure.step

theorem failed_cons (source : AddonSource σ) (step : AddonStep) (rest : List AddonStep)
    (w : Workspace σ) :
    failed source (step :: rest) w =
      (if (w.perform source step).1.isOk then [] else [step]) ++
        failed source rest (w.perform source step).2 := by
  unfold failed
  rw [performAll_cons, List.map_append]
  cases (w.perform source step).1 <;> simp [failure?, Except.isOk, Except.toBool]

theorem failed_append (source : AddonSource σ) (first second : List AddonStep) (w : Workspace σ) :
    failed source (first ++ second) w =
      failed source first w ++ failed source second (performAll source first w).2 := by
  unfold failed
  rw [performAll_append, List.map_append]

theorem failed_sublist (source : AddonSource σ) (steps : List AddonStep) (w : Workspace σ) :
    (failed source steps w).Sublist steps := by
  induction steps generalizing w with
  | nil => exact List.Sublist.refl []
  | cons step rest ih =>
    rw [failed_cons]
    split
    · exact (ih _).cons step
    · exact (ih _).cons_cons step

/-! ### A request -/

theorem mem_plan {requested : NameSet} {step : AddonStep} :
    step ∈ w.plan requested ↔
      (step.operation = .deactivate ∧ step.addon ∈ w.active ∧ step.addon ∉ requested) ∨
      (step.operation = .activate ∧ step.addon ∈ requested ∧ step.addon ∉ w.active) := by
  obtain ⟨operation, addon⟩ := step
  unfold plan
  cases operation <;>
    simp [Std.ExtTreeMap.mem_keys, Std.ExtTreeSet.mem_toList, and_comm]

theorem nodup_keys {α : Type} (map : NameMap α) : map.keys.Nodup := by
  refine Std.ExtTreeMap.distinct_keys.imp fun different same => ?_
  exact different (Std.LawfulEqCmp.compare_eq_iff_eq.mpr same)

theorem nodup_toList (names : NameSet) : names.toList.Nodup := by
  refine Std.ExtTreeSet.distinct_toList.imp fun different same => ?_
  exact different (Std.LawfulEqCmp.compare_eq_iff_eq.mpr same)

/-- **A plan has one step at most for an addon.** -/
theorem nodup_plan (w : Workspace σ) (requested : NameSet) :
    ((w.plan requested).map AddonStep.addon).Nodup := by
  have addons (operation : AddonOperation) (list : List String) :
      (list.map (AddonStep.mk operation)).map AddonStep.addon = list := by
    rw [List.map_map]
    exact List.map_id list
  unfold plan
  rw [List.map_append, addons, addons, List.nodup_append]
  refine ⟨(nodup_keys _).filter _, (nodup_toList _).filter _, ?_⟩
  intro addon leaves other joins same
  subst same
  exact of_decide_eq_true (List.mem_filter.mp joins).2
    (Std.ExtTreeMap.mem_keys.mp (List.mem_filter.mp leaves).1)

/-- **No step is reported twice.** -/
theorem nodup_setActive (source : AddonSource σ) (requested : NameSet) (w : Workspace σ) :
    ((w.setActive source requested).1.map AddonFailure.step).Nodup :=
  (failed_sublist source _ w).nodup (.of_map AddonStep.addon (w.nodup_plan requested))

/-- A step is still called for in its workspace: it deactivates an addon that is active, or activates
one that is not. -/
def Due (visit : AddonStep × Workspace σ) : Prop :=
  visit.1.operation = .deactivate ↔ visit.1.addon ∈ visit.2.active

/-- A step leaves the other addons active or inactive. -/
theorem mem_perform_of_ne {step : AddonStep} (different : step.addon ≠ other) :
    other ∈ (w.perform source step).2.active ↔ other ∈ w.active := by
  obtain ⟨operation, addon⟩ := step
  cases operation with
  | activate =>
    show other ∈ (w.activate source addon).2.active ↔ _
    rw [mem_activate]
    exact or_iff_left fun now => different now.1
  | deactivate =>
    show other ∈ (w.deactivate source addon).2.active ↔ _
    rw [mem_deactivate]
    exact and_iff_right different

theorem due_of_mem_visits {steps : List AddonStep} (distinct : (steps.map AddonStep.addon).Nodup)
    (due : ∀ step ∈ steps, Due (step, w)) : ∀ visit ∈ visits source steps w, Due visit := by
  induction steps generalizing w with
  | nil => nofun
  | cons step rest ih =>
    rw [List.map_cons, List.nodup_cons] at distinct
    obtain ⟨dueNow, dueLater⟩ := List.forall_mem_cons.mp due
    refine List.forall_mem_cons.mpr ⟨dueNow, ih distinct.2 fun other later => ?_⟩
    have different : step.addon ≠ other.addon := fun same =>
      distinct.1 (same ▸ List.mem_map_of_mem later)
    exact (dueLater other later).trans (mem_perform_of_ne different).symm

/-- **Each step of a plan is still called for when it is taken**, whatever the steps before it did. -/
theorem due_of_mem_plan (source : AddonSource σ) (w : Workspace σ) (requested : NameSet) :
    ∀ visit ∈ visits source (w.plan requested) w, Due visit := by
  refine due_of_mem_visits (w.nodup_plan requested) fun step planned => ?_
  rcases mem_plan.mp planned with ⟨leaves, isActive, -⟩ | ⟨joins, -, inactive⟩
  · exact iff_of_true leaves isActive
  · exact iff_of_false (by rw [joins]; nofun) inactive

/-- Deactivations, whether they fail or not, make just their addons inactive. -/
theorem mem_performAll_deactivate {addons : List String} :
    other ∈ (performAll source (addons.map (⟨.deactivate, ·⟩)) w).2.active ↔
      other ∉ addons ∧ other ∈ w.active := by
  rw [performAll_snd, List.foldl_map]
  exact mem_foldl_deactivate

/-- Activations make those of their addons active that do not fail. -/
theorem mem_performAll_activate {addons : List String} (distinct : addons.Nodup) :
    other ∈ (performAll source (addons.map (⟨.activate, ·⟩)) w).2.active ↔
      other ∈ w.active ∨
        (other ∈ addons ∧ ⟨.activate, other⟩ ∉ failed source (addons.map (⟨.activate, ·⟩)) w) := by
  induction addons generalizing w with
  | nil => simp [performAll]
  | cons addon rest ih =>
    obtain ⟨notLater, distinct⟩ := List.nodup_cons.mp distinct
    have unreported (after : Workspace σ) :
        ⟨.activate, addon⟩ ∉ failed source (rest.map (⟨.activate, ·⟩)) after := fun reported =>
      notLater (by simpa using (failed_sublist _ _ _).subset reported)
    have performed : w.perform source ⟨.activate, addon⟩ = w.activate source addon := rfl
    rw [List.map_cons, performAll_cons, ih distinct, failed_cons, performed, mem_activate]
    by_cases same : addon = other
    · subst same
      by_cases succeeded : (w.activate source addon).1.isOk
      · simp [succeeded, unreported]
      · simp [succeeded, notLater]
    · by_cases succeeded : (w.activate source addon).1.isOk
      · simp [succeeded, same, Ne.symm same]
      · simp [succeeded, same, Ne.symm same]

/-- **After a request those requested addons are active whose activation did not fail.** -/
theorem mem_setActive_iff {requested : NameSet} :
    other ∈ (w.setActive source requested).2.active ↔
      other ∈ requested ∧ ⟨.activate, other⟩ ∉ failed source (w.plan requested) w := by
  unfold setActive plan
  rw [performAll_append, failed_append, List.mem_append, not_or,
    mem_performAll_activate ((nodup_toList _).filter _), mem_performAll_deactivate]
  have notThere : ⟨.activate, other⟩ ∉
      failed source ((w.active.keys.filter (· ∉ requested)).map (⟨.deactivate, ·⟩)) w :=
    fun reported => by simpa using (failed_sublist _ _ _).subset reported
  rw [and_iff_right notThere, List.mem_filter, List.mem_filter, Std.ExtTreeMap.mem_keys,
    Std.ExtTreeSet.mem_toList, decide_eq_true_eq, decide_eq_true_eq]
  constructor
  · rintro (⟨stays, isActive⟩ | ⟨⟨isRequested, -⟩, succeeded⟩)
    · refine ⟨by simpa [isActive] using stays, fun reported => ?_⟩
      have planned := (failed_sublist _ _ _).subset reported
      simp [isActive] at planned
    · exact ⟨isRequested, succeeded⟩
  · rintro ⟨isRequested, succeeded⟩
    by_cases isActive : other ∈ w.active
    · exact .inl ⟨fun left => left.2 isRequested, isActive⟩
    · exact .inr ⟨⟨isRequested, isActive⟩, succeeded⟩

/-! ### What activations do to the table -/

/-- Entries that join a table come from nowhere else. -/
theorem getElem?_foldl_install {entries : List (String × Symbol)} {table : SymbolTable}
    {installed : Installed} {name : String} {symbol : Symbol}
    (found : (entries.foldl install (table, installed)).1[name]? = some symbol) :
    table[name]? = some symbol ∨ (name, symbol) ∈ entries := by
  induction entries generalizing table installed with
  | nil => exact .inl found
  | cons entry rest ih =>
    rw [List.foldl_cons] at found
    by_cases held : table.holds entry.1 entry.2
    · rw [show install (table, installed) entry = (table, _) from if_pos held] at found
      exact (ih found).imp_right (List.mem_cons_of_mem _)
    · rw [show install (table, installed) entry = (table.insert entry.1 entry.2, _) from
        if_neg held] at found
      rcases ih found with before | later
      · rw [NameMap.getElem?_insert] at before
        split at before
        · subst name
          cases before
          exact .inr List.mem_cons_self
        · exact .inl before
      · exact .inr (List.mem_cons_of_mem _ later)

/-- **An activation leaves the entries of the table as they are.** -/
theorem getElem?_activate_of_ne_none {name : String} (some : w.table[name]? ≠ none) (addon : String) :
    (w.activate source addon).2.table[name]? = w.table[name]? := by
  rcases activate_outcome source addon w with ⟨contribution, ⟨-, free⟩, result⟩ |
    ⟨error, -, result⟩ | ⟨_, error, -, -, result⟩
  · obtain ⟨distinct, -, fits⟩ := SymbolTable.conflict?_eq_none free
    rw [result, accept_eq]
    exact (foldl_install distinct fits).kept name some
  · rw [result]
  · rw [result]

/-- **An entry that an activation adds is brought by the addon**, which is accepted. -/
theorem getElem?_activate_cases {name : String} {symbol : Symbol}
    (found : (w.activate source addon).2.table[name]? = some symbol) :
    w.table[name]? = some symbol ∨
      ∃ contribution, w.Accepts source addon contribution ∧ (name, symbol) ∈ contribution.entries := by
  rcases activate_outcome source addon w with ⟨contribution, accepts, result⟩ |
    ⟨error, -, result⟩ | ⟨_, error, -, -, result⟩
  · rw [result, accept_eq] at found
    exact (getElem?_foldl_install found).imp_right fun brought => ⟨contribution, accepts, brought⟩
  · rw [result] at found
    exact .inl found
  · rw [result] at found
    exact .inl found

section Activations

variable {steps : List AddonStep} {name : String} {symbol : Symbol}

theorem perform_of_activates {step : AddonStep} (activates : step.operation = .activate)
    (source : AddonSource σ) (w : Workspace σ) :
    w.perform source step = w.activate source step.addon := by
  unfold perform
  rw [activates]

theorem mem_performAll_of_mem (activations : ∀ step ∈ steps, step.operation = .activate)
    (isActive : other ∈ w.active) : other ∈ (performAll source steps w).2.active := by
  induction steps generalizing w with
  | nil => exact isActive
  | cons step rest ih =>
    obtain ⟨activates, later⟩ := List.forall_mem_cons.mp activations
    rw [performAll_cons]
    refine ih later ?_
    rw [perform_of_activates activates, mem_activate]
    exact .inl isActive

/-- **Activations leave the entries of the table as they are.** -/
theorem getElem?_performAll_of_ne_none (activations : ∀ step ∈ steps, step.operation = .activate)
    (some : w.table[name]? ≠ none) :
    (performAll source steps w).2.table[name]? = w.table[name]? := by
  induction steps generalizing w with
  | nil => rfl
  | cons step rest ih =>
    obtain ⟨activates, later⟩ := List.forall_mem_cons.mp activations
    have unchanged : (w.activate source step.addon).2.table[name]? = w.table[name]? :=
      getElem?_activate_of_ne_none some step.addon
    rw [performAll_cons, perform_of_activates activates, ih later (by rwa [unchanged]), unchanged]

/-- **An entry that activations add is brought by an addon that they make active**, in the step in
which it is accepted. -/
theorem getElem?_performAll_cases (activations : ∀ step ∈ steps, step.operation = .activate)
    (found : (performAll source steps w).2.table[name]? = some symbol) :
    w.table[name]? = some symbol ∨ ∃ addon ∈ (performAll source steps w).2.active,
      ∃ before contribution, (⟨.activate, addon⟩, before) ∈ visits source steps w ∧
        before.Accepts source addon contribution ∧ (name, symbol) ∈ contribution.entries := by
  induction steps generalizing w with
  | nil => exact .inl found
  | cons step rest ih =>
    obtain ⟨activates, later⟩ := List.forall_mem_cons.mp activations
    obtain ⟨operation, addon⟩ := step
    subst activates
    rw [performAll_cons] at found ⊢
    rcases ih later found with first | ⟨other, isActive, before, contribution, visited, accepted⟩
    · refine (getElem?_activate_cases first).imp_right fun ⟨contribution, accepts, brought⟩ => ?_
      refine ⟨addon, mem_performAll_of_mem later ?_, w, contribution, List.mem_cons_self, accepts,
        brought⟩
      show addon ∈ (w.activate source addon).2.active
      rw [activate_of_accepts accepts]
      exact mem_accept.mpr (.inl rfl)
    · exact .inr ⟨other, isActive, before, contribution, List.mem_cons_of_mem _ visited, accepted⟩

end Activations

/-- Without active addons a request is made of activations. -/
theorem plan_of_inactive (inactive : ∀ addon, addon ∉ w.active) (requested : NameSet) :
    ∀ step ∈ w.plan requested, step.operation = .activate := by
  intro step planned
  rcases mem_plan.mp planned with ⟨-, isActive, -⟩ | ⟨activates, -⟩
  · exact absurd isActive (inactive _)
  · exact activates

theorem mem_activeSet {addon : String} : addon ∈ w.activeSet ↔ addon ∈ w.active := by
  unfold activeSet
  rw [Std.ExtTreeSet.mem_ofList, List.contains_iff_mem, Std.ExtTreeMap.mem_keys]

end Workspace

end Reckoner
