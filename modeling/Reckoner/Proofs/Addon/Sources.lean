/-
Workspaces over different sources that behave alike.

* `AddonSource.Maps` — a source answers on the images of states as another one does on the states.
* `Workspace.setActive_mapSource`, `Workspace.requestAll_mapSource` — **workspaces over such sources
  go through the same steps with the same results.**
* `AddonSource.recorded` — a source that keeps a record of the calls it sees. Forgetting the record
  gives the source back (`AddonSource.recorded_maps`).
-/

import Reckoner.Proofs.Addon.Steps

namespace Reckoner

variable {σ τ : Type}

/-- A source answers on the images of states as another one does on the states. -/
structure AddonSource.Maps (source : AddonSource σ) (other : AddonSource τ) (f : σ → τ) : Prop where
  discover : ∀ state, other.discover (f state) = source.discover state
  load : ∀ addon state, other.load addon (f state) =
    ((source.load addon state).1, f (source.load addon state).2)
  unload : ∀ addon state, other.unload addon (f state) =
    ((source.unload addon state).1, f (source.unload addon state).2)

namespace Workspace

/-- The workspace with the image of the state of its source. -/
def mapSource (f : σ → τ) (w : Workspace σ) : Workspace τ :=
  ⟨w.table, w.scripts, w.active, f w.source⟩

variable {source : AddonSource σ} {other : AddonSource τ} {f : σ → τ}

theorem activate_mapSource (maps : source.Maps other f) (addon : String) (w : Workspace σ) :
    (w.mapSource f).activate other addon =
      ((w.activate source addon).1, (w.activate source addon).2.mapSource f) := by
  unfold activate mapSource
  simp only [maps.load]
  rcases source.load addon w.source with ⟨error | contribution, state⟩
  · rfl
  · cases free : SymbolTable.conflict? w.table [] contribution.entries with
    | some error => simp only [free, maps.unload]
    | none =>
      simp only [free]
      rfl

theorem deactivate_mapSource (maps : source.Maps other f) (addon : String) (w : Workspace σ) :
    (w.mapSource f).deactivate other addon =
      ((w.deactivate source addon).1, (w.deactivate source addon).2.mapSource f) := by
  unfold deactivate mapSource
  simp only [maps.unload]

theorem perform_mapSource (maps : source.Maps other f) (step : AddonStep) (w : Workspace σ) :
    (w.mapSource f).perform other step =
      ((w.perform source step).1, (w.perform source step).2.mapSource f) := by
  obtain ⟨operation, addon⟩ := step
  cases operation with
  | activate => exact activate_mapSource maps addon w
  | deactivate => exact deactivate_mapSource maps addon w

theorem performAll_mapSource (maps : source.Maps other f) (steps : List AddonStep)
    (w : Workspace σ) :
    performAll other steps (w.mapSource f) =
      ((performAll source steps w).1, (performAll source steps w).2.mapSource f) := by
  induction steps generalizing w with
  | nil => rfl
  | cons step rest ih => rw [performAll_cons, performAll_cons, perform_mapSource maps, ih]

/-- **A request goes through the same steps with the same results.** -/
theorem setActive_mapSource (maps : source.Maps other f) (requested : NameSet) (w : Workspace σ) :
    (w.mapSource f).setActive other requested =
      ((w.setActive source requested).1, (w.setActive source requested).2.mapSource f) :=
  performAll_mapSource maps (w.plan requested) w

theorem requestAll_mapSource (maps : source.Maps other f) (requests : List NameSet)
    (w : Workspace σ) :
    (w.mapSource f).requestAll other requests = (w.requestAll source requests).mapSource f := by
  induction requests generalizing w with
  | nil => rfl
  | cons requested rest ih =>
    unfold requestAll at ih ⊢
    rw [List.foldl_cons, List.foldl_cons, setActive_mapSource maps, ih]

end Workspace

/-! ### A record of calls -/

/-- A call that a source sees, with its result. -/
inductive AddonCall where
  | load (addon : String) (result : Except AddonError Contribution)
  | unload (addon : String) (result : Except AddonError Unit)

/-- The source that also keeps a record of the calls it sees. -/
def AddonSource.recorded (source : AddonSource σ) : AddonSource (σ × List AddonCall) where
  discover state := source.discover state.1
  load addon state :=
    let (result, after) := source.load addon state.1
    (result, after, state.2 ++ [.load addon result])
  unload addon state :=
    let (result, after) := source.unload addon state.1
    (result, after, state.2 ++ [.unload addon result])

/-- **Keeping a record changes nothing else.** -/
theorem AddonSource.recorded_maps (source : AddonSource σ) :
    source.recorded.Maps source Prod.fst :=
  ⟨fun _ => rfl, fun _ _ => rfl, fun _ _ => rfl⟩

/-- The calls that the source of a workspace has seen. -/
abbrev Workspace.calls (w : Workspace (σ × List AddonCall)) : List AddonCall := w.source.2

end Reckoner
