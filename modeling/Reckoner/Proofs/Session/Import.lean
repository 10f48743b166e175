/-
Importing a table into a session.

An import deactivates all addons with the old table, puts the new one in its place and activates the
same addons again, in the order of their names. Nothing is assumed about the source.

* `Session.emptied` — the session between the two halves of an import.
* `Session.importTable_of_read` — the result of an import, from that session.
* `Session.importTable_installs` — **an import installs the document and nothing that contradicts
  it.**
-/

import Reckoner.Proofs.Addon.Steps
import Reckoner.Proofs.Document.RoundTrip
import Reckoner.Session.Basic

namespace Reckoner

namespace Session

variable {σ : Type} {source : AddonSource σ} {session : Session σ}

/-- The session with another table and without active addons, after they have been deactivated. -/
def emptied (source : AddonSource σ) (table : SymbolTable) (session : Session σ) : Session σ :=
  { (session.setActive source ∅).2 with table }

theorem not_mem_emptied {table : SymbolTable} (addon : String) :
    addon ∉ (session.emptied source table).active :=
  Workspace.not_mem_setActive_empty

/-- **A document that can be read is imported**: the active addons are deactivated, and activated
again with its table. -/
theorem importTable_of_read {text : String} {table : SymbolTable}
    (accepted : SymbolTable.read text = .ok table) :
    session.importTable source text =
      .ok ((session.setActive source ∅).1 ++
          ((session.emptied source table).setActive source session.activeSet).1,
        ((session.emptied source table).setActive source session.activeSet).2) := by
  unfold importTable
  rw [accepted]
  rfl

/-- **An import installs the document and nothing that contradicts it**, whatever the source does.

Every name of the document has its entry. Any other entry is brought by an addon that is active
afterwards, in the contribution with which it was accepted during the import. No addon is active that
was not active before, and an activation is reported as failed for each that no longer is. -/
theorem importTable_installs (source : AddonSource σ) (session : Session σ) {text : String}
    {table : SymbolTable} (accepted : SymbolTable.read text = .ok table) :
    ∃ failures after, session.importTable source text = .ok (failures, after) ∧
      (∀ (name : String) (symbol : Symbol), table[name]? = some symbol →
        after.table[name]? = some symbol) ∧
      (∀ (name : String) (symbol : Symbol), table[name]? = none →
        after.table[name]? = some symbol →
          ∃ addon ∈ after.active, ∃ before contribution,
            (⟨.activate, addon⟩, before) ∈ Workspace.visits source
              ((session.emptied source table).plan session.activeSet)
              (session.emptied source table).toWorkspace ∧
            before.Accepts source addon contribution ∧ (name, symbol) ∈ contribution.entries) ∧
      (∀ addon ∈ after.active, addon ∈ session.active) ∧
      (∀ addon ∈ session.active, addon ∉ after.active →
        ⟨.activate, addon⟩ ∈ failures.map AddonFailure.step) := by
  refine ⟨_, _, importTable_of_read accepted, ?_⟩
  have inactive : ∀ addon, addon ∉ (session.emptied source table).active := not_mem_emptied
  have replaced : (session.emptied source table).table = table := rfl
  generalize session.emptied source table = start at inactive replaced ⊢
  have activations : ∀ step ∈ start.plan session.activeSet, step.operation = .activate :=
    Workspace.plan_of_inactive inactive session.activeSet
  have active (addon : String) :
      addon ∈ (start.setActive source session.activeSet).2.active ↔ addon ∈ session.active ∧
        ⟨.activate, addon⟩ ∉
          Workspace.failed source (start.plan session.activeSet) start.toWorkspace := by
    rw [← Workspace.mem_activeSet (w := session.toWorkspace)]
    exact Workspace.mem_setActive_iff
  refine ⟨fun name symbol found => ?_, fun name symbol absent found => ?_,
    fun addon isActive => ((active addon).mp isActive).1, fun addon wasActive left => ?_⟩
  · rw [← replaced] at found
    have kept : (start.setActive source session.activeSet).2.table[name]? = start.table[name]? :=
      Workspace.getElem?_performAll_of_ne_none activations
        (by rw [found]; exact Option.some_ne_none symbol)
    exact kept.trans found
  · rcases Workspace.getElem?_performAll_cases activations found with before | brought
    · rw [replaced, absent] at before
      cases before
    · exact brought
  · rw [List.map_append]
    refine List.mem_append_right _ (Classical.byContradiction fun succeeded => ?_)
    exact left ((active addon).mpr ⟨wasActive, succeeded⟩)

/-- A function of `n`. -/
def ofN (expression : String) : Symbol := .function ⟨["n"], expression, by decide⟩

/-- A table with one function of `n` is read back from its document. -/
theorem read_ofN {name : String} (valid : isValidName name) (expression : String) :
    SymbolTable.read (SymbolTable.text ((∅ : SymbolTable).insert name (ofN expression))) =
      .ok ((∅ : SymbolTable).insert name (ofN expression)) := by
  have textual : ∀ (other : String) (symbol : Symbol),
      ((∅ : SymbolTable).insert name (ofN expression))[other]? = some symbol →
        isValidName other ∧ symbol.Textual := by
    intro other symbol found
    rw [NameMap.getElem?_insert, Std.ExtTreeMap.getElem?_empty] at found
    split at found
    · cases found
      subst other
      exact ⟨valid, trivial⟩
    · cases found
  exact SymbolTable.read_text.mpr
    ⟨SymbolDocument.countable_ofTable textual, SymbolDocument.toTable_ofTable textual⟩

/-- What two addons bring: a function of both, a script of the first and a function of the second. -/
def pairResult (addon : String) : Except AddonError Contribution :=
  if addon = "a" then
    .ok ⟨[("f", ofN "n + 1")],
      [⟨"s", ⟨"a", "s", 1⟩, fun arguments => .ok (arguments.headD (.zero false))⟩]⟩
  else if addon = "b" then .ok ⟨[("f", ofN "n + 1"), ("g", ofN "n * 2")], []⟩
  else .error (.notFound addon)

/-- A source of these two addons. -/
def pair : AddonSource Unit where
  discover _ := .ok (.ofList ["a", "b"] compare)
  load addon state := (pairResult addon, state)
  unload _ state := (.ok (), state)

/-- An addon that contradicts the document is reported and stays inactive. -/
theorem importTable_installs_pair :
    let session := ((start {} ()).setActive pair (.ofList ["a", "b"] compare)).2
    let table : SymbolTable := (∅ : SymbolTable).insert "g" (ofN "n + 2")
    SymbolTable.read table.text = .ok table ∧
      ∃ failures after, session.importTable pair table.text = .ok (failures, after) ∧
        after.table["g"]? = some (ofN "n + 2") ∧ "a" ∈ after.active ∧
        ⟨.activate, "b"⟩ ∈ failures.map AddonFailure.step := by
  intro session table
  have accepted : SymbolTable.read table.text = .ok table := read_ofN (by decide +kernel) _
  obtain ⟨failures, after, imported, installed, -, -, reported⟩ :=
    importTable_installs pair session accepted
  obtain ⟨-, rfl⟩ :=
    Prod.mk.inj (Except.ok.inj (imported.symm.trans (importTable_of_read accepted)))
  have stays : "a" ∈ ((session.emptied pair table).setActive pair session.activeSet).2.active := by
    decide +kernel
  have leaves : "b" ∉ ((session.emptied pair table).setActive pair session.activeSet).2.active := by
    decide +kernel
  have wasActive : "b" ∈ session.active := by decide +kernel
  exact ⟨accepted, _, _, imported, installed "g" (ofN "n + 2") (by decide +kernel), stays,
    reported "b" wasActive leaves⟩

end Session

end Reckoner
