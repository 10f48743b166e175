/-
The set of active addons after a restart.

The set is saved when a session ends, and a new session over the same directory activates its addons
in the order of their names, with an empty table. The old session may have activated them in another
order and with other tables, for its user could define and remove functions in between.

* `Session.restore_serveAll` — **all addons become active again exactly if they are found and do not
  contradict each other.** They do not if the user left the names of active addons alone.
* `Session.restore_refuses` — an addon that has adopted a function of the user in place of another
  addon's is refused.
-/

import Reckoner.Proofs.Addon.Directory
import Reckoner.Proofs.Document.RoundTrip
import Reckoner.Proofs.Session.Runs
import Reckoner.Script.Module

namespace Reckoner

/-- A set of names is read back from its document. -/
theorem NameSet.read_text (names : NameSet) : NameSet.read names.text = .ok names := by
  unfold NameSet.read NameSet.text Json.texts
  rw [(Reader.Reads.list Reader.Reads.string names.toList).run.mpr ⟨fun _ _ => trivial, rfl⟩]
  exact congrArg Except.ok (NameSet.ofList_toList names)

namespace Session

/-- Of the saved addons those are made active that are available. -/
theorem restore_of_discover {σ : Type} {source : AddonSource σ} {session : Session σ}
    {available : NameSet} (discovered : source.discover session.source = .ok available)
    (saved : NameSet) :
    session.restore source saved =
      .ok (session.setActive source (saved.filter fun addon => addon ∈ available)) := by
  unfold restore Session.available
  rw [discovered]
  rfl

section

variable {σ : Type} {source : AddonSource σ} {result : String → Except AddonError Contribution}

/-- After a run from an empty table the active addons are some that can be loaded. -/
theorem exists_contribution_start (fixed : source.Fixed result) (settings : Settings) (state : σ)
    (requests : List Request) :
    ∀ addon ∈ ((start settings state).serveAll source requests).active,
      ∃ contribution, result addon = .ok contribution ∧
        (contribution.entries.map Prod.fst).Nodup :=
  exists_contribution_serveAll fixed
    (fun _ isActive => absurd isActive Std.ExtTreeMap.not_mem_empty)
    (.of_inactive fun _ => Std.ExtTreeMap.not_mem_empty) requests

/-- **The active addons all become active again exactly if they are available and do not contradict
each other**, which they do not after a run that leaves their names alone. -/
theorem restart_iff (fixed : source.Fixed result)
    (constant : ∀ addon, ∀ entry ∈ (offerOf result addon).entries, entry.2.kind ≠ .variable)
    (available : NameSet) (settings later : Settings) (state : σ) (requests : List Request) :
    let session := (start settings state).serveAll source requests
    let restarted := (start later state).setActive source
      (session.activeSet.filter fun addon => addon ∈ available)
    (restarted.1 = [] ∧ restarted.2.activeSet = session.activeSet ↔
        (∀ addon ∈ session.active, addon ∈ available) ∧
          Agreeing (Offered (offerOf result) session.active)) ∧
      (Undisturbed source requests (start settings state) →
        Agreeing (Offered (offerOf result) session.active)) := by
  intro session restarted
  have loads := exists_contribution_start fixed settings state requests
  have offered : (fun name symbol => ∃ addon ∈ session.activeSet,
      (name, symbol) ∈ (offerOf result addon).entries) = Offered (offerOf result) session.active := by
    funext name symbol
    simp only [Offered, Workspace.mem_activeSet]
  have agreement : ((start later state).setActive source session.activeSet).1 = [] ∧
      ((start later state).setActive source session.activeSet).2.activeSet = session.activeSet ↔
        Agreeing (Offered (offerOf result) session.active) := by
    rw [← offered]
    exact Workspace.setActive_initial_iff fixed
      (fun addon isRequested => loads addon (Workspace.mem_activeSet.mp isRequested)) state
  have same (present : ∀ addon ∈ session.active, addon ∈ available) :
      (session.activeSet.filter fun addon => addon ∈ available) = session.activeSet :=
    session.activeSet.filter_of_forall fun addon isActive =>
      decide_eq_true (present addon (Workspace.mem_activeSet.mp isActive))
  have found (kept : restarted.2.activeSet = session.activeSet) :
      ∀ addon ∈ session.active, addon ∈ available := by
    intro addon isActive
    rw [← Workspace.mem_activeSet, ← kept, Workspace.mem_activeSet] at isActive
    have isRequested := (Workspace.mem_setActive_iff.mp isActive).1
    exact of_decide_eq_true (NameSet.mem_filter.mp isRequested).2
  unfold restarted at found ⊢
  refine ⟨⟨fun kept => ?_, fun ⟨present, agreeing⟩ => ?_⟩, fun undisturbed => ?_⟩
  · have present := found kept.2
    rw [same present] at kept
    exact ⟨present, agreement.mp kept⟩
  · rw [same present]
    exact agreement.mpr agreeing
  · exact (standing_serveAll fixed constant
      (.of_inactive fun _ => Std.ExtTreeMap.not_mem_empty) undisturbed).agreeing

end

/-- **The active addons of a session all become active again in a new one exactly if they are found
there and do not contradict each other.**

The sessions are over the addons of one directory that can be listed, the first has gone through any
requests, and its set of active addons is saved and read again. An addon is found if its name has no
slash, with which it could be loaded as well. The addons do not contradict each other if no request
defined or removed a name that an addon brought which was active then. -/
theorem restore_serveAll (directory : AddonDirectory) {available : NameSet}
    (discovered : directory.discover = .ok available) (settings later : Settings)
    (requests : List Request) :
    let session := (start settings directory).serveAll AddonDirectory.source requests
    ∃ saved failures after, NameSet.read session.activeSet.text = .ok saved ∧
      (start later directory).restore AddonDirectory.source saved = .ok (failures, after) ∧
      (failures = [] ∧ after.activeSet = session.activeSet ↔
        (∀ addon ∈ session.active, addon ∈ available) ∧
          Agreeing (Offered (offerOf directory.result) session.active)) ∧
      (directory.root ≠ "" →
        ∀ addon ∈ session.active, '/' ∉ addon.toList → addon ∈ available) ∧
      (Undisturbed AddonDirectory.source requests (start settings directory) →
        Agreeing (Offered (offerOf directory.result) session.active)) := by
  intro session
  have maps := directory.frozen_maps
  have fixed := directory.frozen_fixed
  -- The source of this directory alone always loads an addon with the same result.
  have mapped : session =
      ((start settings directory.loaded).serveAll directory.frozen requests).mapSource
        directory.withLoaded := serveAll_mapSource maps requests (start settings directory.loaded)
  have loads := exists_contribution_start fixed settings directory.loaded requests
  obtain ⟨restart, undisturbed⟩ := restart_iff fixed directory.kind_ne_variable available settings
    later directory.loaded requests
  have preserved : Undisturbed AddonDirectory.source requests (start settings directory) →
      Undisturbed directory.frozen requests (start settings directory.loaded) :=
    (undisturbed_mapSource maps requests (start settings directory.loaded)).mp
  generalize (start settings directory.loaded).serveAll directory.frozen requests = first at *
  have active : session.active = first.active := by
    rw [mapped]
    rfl
  have activeSet : session.activeSet = first.activeSet := by
    rw [mapped]
    rfl
  have restored : (start later directory).restore AddonDirectory.source first.activeSet = _ :=
    restore_of_discover discovered first.activeSet
  have restarted (requested : NameSet) :
      (start later directory).setActive AddonDirectory.source requested = _ :=
    setActive_mapSource maps requested (start later directory.loaded)
  rw [restarted] at restored
  rw [activeSet, active]
  refine ⟨_, _, _, NameSet.read_text _, restored, restart, ?_, fun kept => undisturbed (preserved kept)⟩
  intro named addon isActive plain
  obtain ⟨contribution, loaded, -⟩ := loads addon isActive
  exact AddonDirectory.mem_discover loaded named plain discovered

/-- The manifest of an addon with a function `f` of `x`. -/
def describing (expression : String) : String :=
  "\x7b\"functions\":\x7b\"f\":\x7b\"expression\":\"" ++ expression ++
    "\",\"arguments\":[\"x\"]\x7d\x7d\x7d"

/-- A directory of two addons that contradict each other. -/
def clashing : AddonDirectory where
  files := .ofTexts [("addons/a/addon.json", describing "x + 1"),
    ("addons/b/addon.json", describing "x + 2")]
  root := "addons"
  budget := 0
  loaded := ∅

/-- The addon that was refused in the old session is not asked for in the new one. -/
theorem restore_serveAll_refused :
    let requests : List Request := [.setActive (.ofList ["b"] compare),
      .setActive (.ofList ["a", "b"] compare), .evaluate "y := f(1)"]
    let session := (start {} clashing).serveAll AddonDirectory.source requests
    session.activeSet.toList = ["b"] ∧
      ∃ saved failures after, NameSet.read session.activeSet.text = .ok saved ∧
        (start {} clashing).restore AddonDirectory.source saved = .ok (failures, after) ∧
        failures = [] ∧ after.activeSet = session.activeSet := by
  have discovered : clashing.discover = .ok (.ofList ["a", "b"] compare) :=
    toOption_eq_some.mp (by decide +kernel)
  have plain : ∀ addon ∈ ((start {} clashing).serveAll AddonDirectory.source
      [.setActive (.ofList ["b"] compare), .setActive (.ofList ["a", "b"] compare),
        .evaluate "y := f(1)"]).active.keys, '/' ∉ addon.toList := by decide +kernel
  refine ⟨by decide +kernel, ?_⟩
  obtain ⟨saved, failures, after, read, restored, restart, found, agreeing⟩ :=
    restore_serveAll clashing discovered {} {} _
  refine ⟨saved, failures, after, read, restored, restart.mpr ⟨fun addon isActive => ?_,
    agreeing ⟨nofun, nofun, nofun, trivial⟩⟩⟩
  exact found (by decide) addon isActive (plain addon (Std.ExtTreeMap.mem_keys.mpr isActive))

/-- With a slash behind its name an addon can be activated, but it is found under its name only. -/
example : ((start {} clashing).serveAll AddonDirectory.source
      [.setActive (.ofList ["b/"] compare)]).activeSet.toList = ["b/"] ∧
    clashing.discover.toOption.map Std.ExtTreeSet.toList = some ["a", "b"] := by decide +kernel

/-- **An addon that has adopted a function of the user in place of another addon's is refused** after
a restart, with the addon active that it contradicts. -/
theorem restore_refuses :
    let session := (start {} clashing).serveAll AddonDirectory.source
      [.setActive (.ofList ["a"] compare), .define "f" ["x"] "x + 2",
        .setActive (.ofList ["a", "b"] compare)]
    session.activeSet.toList = ["a", "b"] ∧
      ∃ saved failures after, NameSet.read session.activeSet.text = .ok saved ∧
        (start {} clashing).restore AddonDirectory.source saved = .ok (failures, after) ∧
        failures.map AddonFailure.step = [⟨.activate, "b"⟩] ∧ after.activeSet.toList = ["a"] := by
  intro session
  have restored : ((start {} clashing).restore AddonDirectory.source session.activeSet).toOption.map
      (fun result => (result.1.map AddonFailure.step, result.2.activeSet.toList)) =
        some ([⟨.activate, "b"⟩], ["a"]) := by decide +kernel
  obtain ⟨result, found, shown⟩ := Option.map_eq_some_iff.mp restored
  exact ⟨by decide +kernel, _, result.1, result.2, NameSet.read_text _, toOption_eq_some.mp found,
    congrArg Prod.fst shown, congrArg Prod.snd shown⟩

end Session

end Reckoner
