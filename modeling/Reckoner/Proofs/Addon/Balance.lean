/-
Loads and unloads that balance.

A source is watched through the record of its calls, and it may answer them in any way.

* `turns` — the loads of an addon that succeeded and its unloads, in the order of the calls.
* `Balanced` — the turns of every addon alternate, a load first, and the last one tells whether the
  addon is active. Every step that is called for keeps this (`Balanced.perform`), so every request
  does (`Balanced.setActive`).
* `Workspace.kept_requestAll` — an active addon was active at first or was accepted in some step, and
  has not been unloaded since.
* `Workspace.setActive_calls` — the calls of a request: unloads first, then the attempts to activate.
* `Workspace.requests_balance` — **loads and unloads are balanced over any requests.**
-/

import Mathlib.Data.List.Chain
import Reckoner.Proofs.Addon.Sources

namespace Reckoner

variable {σ : Type} {source : AddonSource σ}

/-! ### Turns -/

/-- Whether a call leaves an addon loaded; none if it is about another one, or a load that failed. -/
def AddonCall.loads? (addon : String) : AddonCall → Option Bool
  | .load other (.ok _) => if other = addon then some true else none
  | .load _ (.error _) => none
  | .unload other _ => if other = addon then some false else none

/-- The addon that a call is about. -/
def AddonCall.addon : AddonCall → String
  | .load addon _ => addon
  | .unload addon _ => addon

/-- The loads of an addon that succeeded, as `true`, and its unloads, as `false`. -/
def turns (addon : String) (calls : List AddonCall) : List Bool :=
  calls.filterMap (AddonCall.loads? addon)

/-- Turns that begin with a load and never repeat. -/
def Alternating (turns : List Bool) : Prop := (false :: turns).IsChain (· ≠ ·)

theorem turns_append (addon : String) (first second : List AddonCall) :
    turns addon (first ++ second) = turns addon first ++ turns addon second :=
  List.filterMap_append

/-- Calls about another addon are no turns. -/
theorem turns_of_ne {addon : String} {calls : List AddonCall}
    (others : ∀ call ∈ calls, call.addon ≠ addon) : turns addon calls = [] := by
  refine List.filterMap_eq_nil_iff.mpr fun call called => ?_
  have different := others call called
  match call with
  | .load _ (.ok _) => exact if_neg different
  | .load _ (.error _) => rfl
  | .unload _ _ => exact if_neg different

/-- An addon that is loaded by a call and not unloaded after it had its last turn then. -/
theorem getLast?_turns_of_load {addon : String} {contribution : Contribution}
    {before later : List AddonCall} (kept : ∀ result, .unload addon result ∉ later) :
    (turns addon (before ++ .load addon (.ok contribution) :: later)).getLast? = some true := by
  have onlyLoads : ∀ turn ∈ turns addon later, turn = true := by
    intro turn taken
    obtain ⟨call, called, loads⟩ := List.mem_filterMap.mp taken
    match call with
    | .load other (.ok _) =>
      simp only [AddonCall.loads?, Option.ite_none_right_eq_some, Option.some.injEq] at loads
      exact loads.2.symm
    | .load other (.error _) => cases loads
    | .unload other result =>
      simp only [AddonCall.loads?, Option.ite_none_right_eq_some] at loads
      obtain ⟨rfl, -⟩ := loads
      exact absurd called (kept result)
  have now : turns addon (.load addon (.ok contribution) :: later) = true :: turns addon later := by
    simp [turns, AddonCall.loads?]
  rw [turns_append, now, List.getLast?_append, List.getLast?_cons]
  rcases last : (turns addon later).getLast? with _ | turn
  · rfl
  · rw [onlyLoads turn (List.mem_of_getLast? last)]
    rfl

/-! ### The calls of a step -/

/-- The calls of an attempt to activate an addon, by whether it succeeds. -/
inductive Attempt (addon : String) : Bool → List AddonCall → Prop where
  | accepted (contribution : Contribution) : Attempt addon true [.load addon (.ok contribution)]
  | failed (error : AddonError) : Attempt addon false [.load addon (.error error)]
  | refused (contribution : Contribution) (result : Except AddonError Unit) :
      Attempt addon false [.load addon (.ok contribution), .unload addon result]

theorem Attempt.about {addon : String} {succeeded : Bool} {attempt : List AddonCall}
    (outcome : Attempt addon succeeded attempt) : ∀ call ∈ attempt, call.addon = addon := by
  cases outcome <;> simp [AddonCall.addon]

namespace Workspace

theorem deactivate_calls (source : AddonSource σ) (addon : String)
    (w : Workspace (σ × List AddonCall)) : ∃ result,
      (w.deactivate source.recorded addon).2.calls = w.calls ++ [.unload addon result] :=
  ⟨_, rfl⟩

theorem activate_calls (source : AddonSource σ) (addon : String)
    (w : Workspace (σ × List AddonCall)) : ∃ attempt,
      Attempt addon (w.activate source.recorded addon).1.isOk attempt ∧
        (w.activate source.recorded addon).2.calls = w.calls ++ attempt := by
  have loads : (source.recorded.load addon w.source).2.2 =
      w.calls ++ [.load addon (source.recorded.load addon w.source).1] := rfl
  rcases activate_outcome source.recorded addon w with ⟨contribution, ⟨loaded, -⟩, result⟩ |
    ⟨error, failed, result⟩ | ⟨contribution, error, loaded, -, result⟩
  · refine ⟨_, by rw [result]; exact .accepted contribution, ?_⟩
    rw [result, ← loaded]
    exact loads
  · refine ⟨_, by rw [result]; exact .failed error, ?_⟩
    rw [result, ← failed]
    exact loads
  · let unloaded := source.recorded.unload addon (source.recorded.load addon w.source).2
    refine ⟨_, by rw [result]; exact .refused contribution unloaded.1, ?_⟩
    have unloads : unloaded.2.2 =
        (source.recorded.load addon w.source).2.2 ++ [.unload addon unloaded.1] := rfl
    rw [result, ← loaded]
    show unloaded.2.2 = _
    rw [unloads, loads, List.append_assoc]
    rfl

end Workspace

/-! ### What balances -/

/-- **The turns of every addon alternate, and the last one tells whether the addon is active.** -/
structure Balanced (w : Workspace (σ × List AddonCall)) : Prop where
  alternating : ∀ addon, Alternating (turns addon w.calls)
  latest : ∀ addon, (false :: turns addon w.calls).getLast? = some (decide (addon ∈ w.active))

namespace Balanced

variable {w after : Workspace (σ × List AddonCall)}

theorem mem_active_iff (balanced : Balanced w) (addon : String) :
    addon ∈ w.active ↔ (turns addon w.calls).getLast? = some true := by
  have latest := balanced.latest addon
  rw [List.getLast?_cons, Option.some.injEq] at latest
  rcases last : (turns addon w.calls).getLast? with _ | turn
  · rw [last, Option.getD_none] at latest
    simpa using latest.symm
  · rw [last, Option.getD_some] at latest
    simp [latest]

/-- A step keeps the balance if its calls are about its addon, and go on with the turns of that addon
from where they are. -/
theorem perform_of_calls (balanced : Balanced w) {step : AddonStep} {new : List AddonCall}
    (calls : (w.perform source.recorded step).2.calls = w.calls ++ new)
    (about : ∀ call ∈ new, call.addon = step.addon)
    (alternating : (decide (step.addon ∈ w.active) :: turns step.addon new).IsChain (· ≠ ·))
    (latest : (decide (step.addon ∈ w.active) :: turns step.addon new).getLast? =
      some (decide (step.addon ∈ (w.perform source.recorded step).2.active))) :
    Balanced (w.perform source.recorded step).2 := by
  have split (addon : String) : false :: turns addon (w.perform source.recorded step).2.calls =
      (false :: turns addon w.calls) ++ turns addon new := by
    rw [calls, turns_append, List.cons_append]
  have unturned {addon : String} (different : step.addon ≠ addon) : turns addon new = [] :=
    turns_of_ne fun call called => by rwa [about call called]
  refine ⟨fun addon => ?_, fun addon => ?_⟩
  · unfold Alternating
    rw [split]
    by_cases same : step.addon = addon
    · subst same
      refine List.isChain_append.mpr ⟨balanced.alternating _, alternating.tail, ?_⟩
      intro before last next first
      rw [balanced.latest, Option.mem_some_iff] at last
      subst last
      exact alternating.rel_head? first
    · rw [unturned same, List.append_nil]
      exact balanced.alternating addon
  · rw [split, List.getLast?_append, balanced.latest addon]
    by_cases same : step.addon = addon
    · subst same
      rw [List.getLast?_cons] at latest
      cases ended : (turns step.addon new).getLast? <;> simpa [ended] using latest
    · simp [unturned same, Workspace.mem_perform_of_ne same]

/-- **A step that is called for keeps the balance**, whether it succeeds or not. -/
theorem perform (balanced : Balanced w) {step : AddonStep} (due : Workspace.Due (step, w)) :
    Balanced (w.perform source.recorded step).2 := by
  obtain ⟨operation, addon⟩ := step
  cases operation with
  | deactivate =>
    have isActive : addon ∈ w.active := due.mp rfl
    have gone : addon ∉ (w.perform source.recorded ⟨.deactivate, addon⟩).2.active := fun still =>
      (Workspace.mem_deactivate.mp still).1 rfl
    obtain ⟨result, calls⟩ := Workspace.deactivate_calls source addon w
    refine balanced.perform_of_calls calls (by simp [AddonCall.addon]) ?_ ?_
    · simp [isActive, turns, AddonCall.loads?]
    · simp [gone, turns, AddonCall.loads?]
  | activate =>
    have inactive : addon ∉ w.active := fun isActive => nomatch due.mpr isActive
    have isActive : addon ∈ (w.perform source.recorded ⟨.activate, addon⟩).2.active ↔
        (w.activate source.recorded addon).1.isOk := by
      show addon ∈ (w.activate source.recorded addon).2.active ↔ _
      rw [Workspace.mem_activate, or_iff_right inactive, and_iff_right rfl]
    obtain ⟨attempt, outcome, calls⟩ := Workspace.activate_calls source addon w
    revert outcome
    generalize (w.activate source.recorded addon).1.isOk = succeeded at isActive
    intro outcome
    have about := outcome.about
    refine balanced.perform_of_calls calls about ?_ ?_ <;>
      cases outcome <;> simp [inactive, isActive, turns, List.filterMap_cons, AddonCall.loads?]

/-- **Steps that are called for keep the balance.** -/
theorem performAll {steps : List AddonStep} (balanced : Balanced w)
    (due : ∀ visit ∈ Workspace.visits source.recorded steps w, Workspace.Due visit) :
    Balanced (Workspace.performAll source.recorded steps w).2 := by
  induction steps generalizing w with
  | nil => exact balanced
  | cons step rest ih =>
    obtain ⟨dueNow, dueLater⟩ := List.forall_mem_cons.mp due
    rw [Workspace.performAll_cons]
    exact ih (balanced.perform dueNow) dueLater

theorem setActive (balanced : Balanced w) (requested : NameSet) :
    Balanced (w.setActive source.recorded requested).2 :=
  balanced.performAll (Workspace.due_of_mem_plan source.recorded w requested)

/-- **Every run of requests keeps the balance.** -/
theorem requestAll (balanced : Balanced w) (requests : List NameSet) :
    Balanced (w.requestAll source.recorded requests) := by
  induction requests generalizing w with
  | nil => exact balanced
  | cons requested rest ih => exact ih (balanced.setActive requested)

end Balanced

/-! ### Since an addon was accepted -/

/-- An addon was accepted on one of some visits, and has not been unloaded since. -/
def Joined (source : AddonSource σ) (visits : List (AddonStep × Workspace (σ × List AddonCall)))
    (calls : List AddonCall) (addon : String) : Prop :=
  ∃ before contribution later, (⟨.activate, addon⟩, before) ∈ visits ∧
    before.Accepts source.recorded addon contribution ∧
    calls = before.calls ++ .load addon (.ok contribution) :: later ∧
    ∀ result, .unload addon result ∉ later

/-- An addon was active in a workspace and has not been unloaded, or was accepted on one of some
visits and has not been unloaded since. -/
def Kept (source : AddonSource σ) (w : Workspace (σ × List AddonCall))
    (visits : List (AddonStep × Workspace (σ × List AddonCall))) (calls : List AddonCall)
    (addon : String) : Prop :=
  (addon ∈ w.active ∧ ∃ new, calls = w.calls ++ new ∧ ∀ result, .unload addon result ∉ new) ∨
    Joined source visits calls addon

theorem Kept.refl {w : Workspace (σ × List AddonCall)} {addon : String} (isActive : addon ∈ w.active) :
    Kept source w [] w.calls addon :=
  .inl ⟨isActive, [], (List.append_nil _).symm, nofun⟩

/-- Visits one after the other. -/
theorem Kept.trans {w between : Workspace (σ × List AddonCall)}
    {first second : List (AddonStep × Workspace (σ × List AddonCall))} {calls : List AddonCall}
    {addon : String} (before : addon ∈ between.active → Kept source w first between.calls addon)
    (after : Kept source between second calls addon) :
    Kept source w (first ++ second) calls addon := by
  rcases after with ⟨wasActive, later, rfl, kept⟩ | ⟨start, contribution, later, visited, accepted⟩
  · rcases before wasActive with ⟨atFirst, new, newCalls, keptNow⟩ |
      ⟨start, contribution, since, visited, accepts, newCalls, keptSince⟩
    · refine .inl ⟨atFirst, new ++ later, by rw [newCalls, List.append_assoc], fun result unloaded => ?_⟩
      exact (List.mem_append.mp unloaded).elim (keptNow result) (kept result)
    · refine .inr ⟨start, contribution, since ++ later, List.mem_append_left _ visited, accepts,
        by rw [newCalls, List.append_assoc, List.cons_append], fun result unloaded => ?_⟩
      exact (List.mem_append.mp unloaded).elim (keptSince result) (kept result)
  · exact .inr ⟨start, contribution, later, List.mem_append_right _ visited, accepted⟩

namespace Workspace

variable {w : Workspace (σ × List AddonCall)} {addon : String}

/-- The calls of a step are about its addon. -/
theorem perform_calls (source : AddonSource σ) (step : AddonStep)
    (w : Workspace (σ × List AddonCall)) : ∃ new,
      (w.perform source.recorded step).2.calls = w.calls ++ new ∧
        ∀ call ∈ new, call.addon = step.addon := by
  obtain ⟨operation, addon⟩ := step
  cases operation with
  | deactivate =>
    obtain ⟨result, calls⟩ := deactivate_calls source addon w
    exact ⟨_, calls, by simp [AddonCall.addon]⟩
  | activate =>
    obtain ⟨attempt, outcome, calls⟩ := activate_calls source addon w
    exact ⟨attempt, calls, outcome.about⟩

/-- **An addon that is active after a step was active before it, or is accepted in that step.** -/
theorem kept_perform {step : AddonStep} (due : Due (step, w))
    (isActive : addon ∈ (w.perform source.recorded step).2.active) :
    Kept source w [(step, w)] (w.perform source.recorded step).2.calls addon := by
  by_cases same : step.addon = addon
  · obtain ⟨operation, addon⟩ := step
    subst same
    cases operation with
    | deactivate => exact absurd rfl (mem_deactivate.mp isActive).1
    | activate =>
      have inactive : addon ∉ w.active := fun before => nomatch due.mpr before
      have succeeded := ((mem_activate.mp isActive).resolve_left inactive).2
      rcases activate_outcome source.recorded addon w with ⟨contribution, accepts, result⟩ |
        ⟨error, -, result⟩ | ⟨_, error, -, -, result⟩
      · refine .inr ⟨w, contribution, [], List.mem_singleton.mpr rfl, accepts, ?_, nofun⟩
        show (w.activate source.recorded addon).2.calls = _
        rw [result, ← accepts.1]
        rfl
      · rw [result] at succeeded
        cases succeeded
      · rw [result] at succeeded
        cases succeeded
  · obtain ⟨new, calls, about⟩ := perform_calls source step w
    exact .inl ⟨(mem_perform_of_ne same).mp isActive, new, calls, fun result unloaded =>
      same (about _ unloaded).symm⟩

theorem kept_performAll {steps : List AddonStep}
    (due : ∀ visit ∈ visits source.recorded steps w, Due visit)
    (isActive : addon ∈ (performAll source.recorded steps w).2.active) :
    Kept source w (visits source.recorded steps w)
      (performAll source.recorded steps w).2.calls addon := by
  induction steps generalizing w with
  | nil => exact .refl isActive
  | cons step rest ih =>
    obtain ⟨dueNow, dueLater⟩ := List.forall_mem_cons.mp due
    rw [performAll_cons] at isActive ⊢
    exact .trans (fun before => kept_perform dueNow before) (ih dueLater isActive)

/-- The steps of some requests, each with the workspace in which it is taken. -/
def visitsAll (source : AddonSource σ) : List NameSet → Workspace σ →
    List (AddonStep × Workspace σ)
  | [], _ => []
  | requested :: rest, w =>
    visits source (w.plan requested) w ++ visitsAll source rest (w.setActive source requested).2

/-- **An addon that is active after some requests was active before them, or was accepted in one of
their steps.** -/
theorem kept_requestAll {requests : List NameSet}
    (isActive : addon ∈ (w.requestAll source.recorded requests).active) :
    Kept source w (visitsAll source.recorded requests w)
      (w.requestAll source.recorded requests).calls addon := by
  induction requests generalizing w with
  | nil => exact .refl isActive
  | cons requested rest ih =>
    exact .trans (fun before => kept_performAll (due_of_mem_plan _ w requested) before) (ih isActive)

end Workspace

/-! ### The calls of a request -/

namespace Workspace

/-- Deactivations are unloads. -/
theorem performAll_deactivate_calls (source : AddonSource σ) (addons : List String)
    (w : Workspace (σ × List AddonCall)) : ∃ unloads,
      (performAll source.recorded (addons.map (⟨.deactivate, ·⟩)) w).2.calls =
        w.calls ++ unloads ∧
      List.Forall₂ (fun addon call => ∃ result, call = .unload addon result) addons unloads := by
  induction addons generalizing w with
  | nil => exact ⟨[], (List.append_nil _).symm, .nil⟩
  | cons addon rest ih =>
    obtain ⟨result, calls⟩ := deactivate_calls source addon w
    obtain ⟨unloads, later, each⟩ := ih (w.deactivate source.recorded addon).2
    refine ⟨.unload addon result :: unloads, ?_, .cons ⟨result, rfl⟩ each⟩
    rw [List.map_cons, performAll_cons]
    show (performAll _ _ (w.deactivate source.recorded addon).2).2.calls = _
    rw [later, calls, List.append_assoc, List.singleton_append]

/-- Activations are attempts. -/
theorem performAll_activate_calls (source : AddonSource σ) (addons : List String)
    (w : Workspace (σ × List AddonCall)) : ∃ attempts,
      (performAll source.recorded (addons.map (⟨.activate, ·⟩)) w).2.calls =
        w.calls ++ attempts.flatten ∧
      List.Forall₂ (fun addon attempt => ∃ succeeded, Attempt addon succeeded attempt)
        addons attempts := by
  induction addons generalizing w with
  | nil => exact ⟨[], (List.append_nil _).symm, .nil⟩
  | cons addon rest ih =>
    obtain ⟨attempt, outcome, calls⟩ := activate_calls source addon w
    obtain ⟨attempts, later, each⟩ := ih (w.activate source.recorded addon).2
    refine ⟨attempt :: attempts, ?_, .cons ⟨_, outcome⟩ each⟩
    rw [List.map_cons, performAll_cons]
    show (performAll _ _ (w.activate source.recorded addon).2).2.calls = _
    rw [later, calls, List.append_assoc, List.flatten_cons]

/-- **A request unloads the addons that it leaves out, and then attempts to activate those that are
new**, one after the other. -/
theorem setActive_calls (source : AddonSource σ) (requested : NameSet)
    (w : Workspace (σ × List AddonCall)) : ∃ unloads attempts,
      (w.setActive source.recorded requested).2.calls = w.calls ++ unloads ++ attempts.flatten ∧
      List.Forall₂ (fun addon call => ∃ result, call = .unload addon result)
        (w.active.keys.filter (· ∉ requested)) unloads ∧
      List.Forall₂ (fun addon attempt => ∃ succeeded, Attempt addon succeeded attempt)
        (requested.toList.filter (· ∉ w.active)) attempts := by
  obtain ⟨unloads, first, eachUnload⟩ :=
    performAll_deactivate_calls source (w.active.keys.filter (· ∉ requested)) w
  obtain ⟨attempts, second, eachAttempt⟩ :=
    performAll_activate_calls source (requested.toList.filter (· ∉ w.active))
      (performAll source.recorded
        ((w.active.keys.filter (· ∉ requested)).map (⟨.deactivate, ·⟩)) w).2
  refine ⟨unloads, attempts, ?_, eachUnload, eachAttempt⟩
  rw [setActive, plan, performAll_append, second, first]

/-! ### Requests -/

/-- **Loads and unloads are balanced over any requests**, whichever of them fail.

Of every addon, the loads that succeed and the unloads that the source sees alternate, a load first;
and the addon is active exactly if it was accepted in some step and has not been unloaded since. In
one more request, the unloads of all deactivations come before the attempts to activate; a requested
addon is active afterwards exactly if no failed activation of it is reported, and no other addon is;
and there is one report for each step that fails.

The calls are those that the source sees without a record of them: keeping one changes nothing. -/
theorem requests_balance (source : AddonSource σ) (table : SymbolTable) (scripts : ScriptRegistry)
    (state : σ) (requests : List NameSet) (requested : NameSet) :
    let start : Workspace (σ × List AddonCall) := ⟨table, scripts, ∅, (state, [])⟩
    let w := start.requestAll source.recorded requests
    let failures := (w.setActive source.recorded requested).1
    let after := (w.setActive source.recorded requested).2
    w.mapSource Prod.fst = (⟨table, scripts, ∅, state⟩ : Workspace σ).requestAll source requests ∧
    (∀ addon, Alternating (turns addon w.calls) ∧
      (addon ∈ w.active ↔
        Joined source (start.visitsAll source.recorded requests) w.calls addon)) ∧
    (∃ unloads attempts, after.calls = w.calls ++ unloads ++ attempts.flatten ∧
      List.Forall₂ (fun addon call => ∃ result, call = .unload addon result)
        (w.active.keys.filter (· ∉ requested)) unloads ∧
      List.Forall₂ (fun addon attempt => ∃ succeeded, Attempt addon succeeded attempt)
        (requested.toList.filter (· ∉ w.active)) attempts) ∧
    (∀ addon, addon ∈ after.active ↔
      addon ∈ requested ∧ ⟨.activate, addon⟩ ∉ failures.map AddonFailure.step) ∧
    failures = (w.visits source.recorded (w.plan requested)).filterMap
        (failureAt? source.recorded) ∧
      (failures.map AddonFailure.step).Nodup := by
  intro start w failures after
  have atFirst : Balanced start := by
    refine ⟨fun _ => List.isChain_singleton false, fun addon => ?_⟩
    show some false = some (decide (addon ∈ (∅ : NameMap Installed)))
    simp
  have balanced : Balanced w := atFirst.requestAll requests
  refine ⟨(requestAll_mapSource source.recorded_maps requests start).symm, fun addon =>
    ⟨balanced.alternating addon, fun isActive => ?_, ?_⟩, setActive_calls source requested w,
    fun addon => mem_setActive_iff, performAll_fst source.recorded (w.plan requested) w,
    nodup_setActive source.recorded requested w⟩
  · exact (kept_requestAll isActive).resolve_left fun atFirst =>
      Std.ExtTreeMap.not_mem_empty atFirst.1
  · rintro ⟨before, contribution, later, -, -, calls, kept⟩
    rw [balanced.mem_active_iff, calls]
    exact getLast?_turns_of_load kept

end Workspace

end Reckoner
