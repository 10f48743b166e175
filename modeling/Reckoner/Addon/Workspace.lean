/-
Activating and deactivating addons.

An active addon owns the symbols it put into the table. A symbol that was there already, from the
user or from another addon, is adopted instead: it stays with its owner, and when the owner is an
addon that goes away, an addon that adopted the symbol takes it over.

* `Installed` — what an active addon owns and adopted.
* `Workspace` — the symbols, the scripts, the active addons and the state of the source.
* `Workspace.activate`, `Workspace.deactivate` — one addon.
* `Workspace.setActive` — makes a set of addons the active one, as far as its steps succeed.
* `Workspace.userSymbols` — the table without what the addons own.
-/

import Reckoner.Addon.Source

namespace Reckoner

/-! ### What an addon has installed -/

/-- What an active addon owns and adopted. -/
structure Installed where
  /-- Symbols that the addon put into the table. -/
  symbols : List (String × Symbol)
  /-- Symbols of the addon that were in the table already. -/
  adopted : List (String × Symbol)
  scripts : List ScriptRef

namespace Installed

/-- Nothing. -/
def none : Installed := ⟨[], [], []⟩

/-- The adopted entry of a name, if it is the same symbol. -/
def adopted? (installed : Installed) (name : String) (symbol : Symbol) :
    Option (String × Symbol) :=
  installed.adopted.find? fun (other, entry) => other = name && entry.same symbol

/-- Makes an adopted entry an own one. -/
def inherit (installed : Installed) (entry : String × Symbol) : Installed where
  symbols := installed.symbols ++ [entry]
  adopted := installed.adopted.erase entry
  scripts := installed.scripts

end Installed

/-! ### Contributions -/

namespace SymbolTable

/-- Whether a name stands for the same symbol in a table. -/
def holds (table : SymbolTable) (name : String) (symbol : Symbol) : Bool :=
  table[name]?.any fun existing => existing.same symbol

/-- Why some entries cannot join a table, after entries with the names `seen`: a name is repeated,
or stands for another symbol. -/
def conflict? (table : SymbolTable) (seen : List String) :
    List (String × Symbol) → Option AddonError
  | [] => none
  | (name, symbol) :: rest =>
    if name ∈ seen then some (.duplicateName name)
    else match table[name]? with
      | none => table.conflict? (name :: seen) rest
      | some existing =>
        if existing.same symbol then table.conflict? (name :: seen) rest
        else some (.conflict name existing.kind)

end SymbolTable

/-! ### The workspace -/

/-- The symbols, the scripts, the active addons and the state of their source. -/
structure Workspace (σ : Type) where
  table : SymbolTable
  scripts : ScriptRegistry
  active : NameMap Installed
  source : σ

/-- What a step does with an addon. -/
inductive AddonOperation where
  | activate
  | deactivate
deriving DecidableEq

/-- The word for an operation. -/
def AddonOperation.name : AddonOperation → String
  | activate => "activate"
  | deactivate => "deactivate"

/-- A step toward a set of active addons. -/
structure AddonStep where
  operation : AddonOperation
  addon : String
deriving DecidableEq

/-- The text of a step. -/
def AddonStep.text (step : AddonStep) : String := step.operation.name ++ " " ++ step.addon

/-- A step that failed. -/
structure AddonFailure where
  step : AddonStep
  error : AddonError
deriving DecidableEq

/-- The message for a failed step. -/
def AddonFailure.message (failure : AddonFailure) : String :=
  s!"failed to {failure.step.operation.name} addon '{failure.step.addon}': {failure.error.message}"

namespace Workspace

variable {σ : Type}

/-- The workspace without symbols, scripts and active addons. -/
def initial (source : σ) : Workspace σ := ⟨∅, .empty, ∅, source⟩

/-- The active addons. -/
def activeSet (w : Workspace σ) : NameSet := .ofList w.active.keys compare

/-- Puts an entry into the table, or adopts it if it is there. -/
def install (state : SymbolTable × Installed) (entry : String × Symbol) :
    SymbolTable × Installed :=
  let (table, installed) := state
  if SymbolTable.holds table entry.1 entry.2 then
    (table, { installed with adopted := installed.adopted ++ [entry] })
  else
    (table.insert entry.1 entry.2, { installed with symbols := installed.symbols ++ [entry] })

/-- Installs what an addon brings. -/
def accept (w : Workspace σ) (addon : String) (contribution : Contribution) : Workspace σ :=
  let refs := contribution.scripts.map ScriptContribution.ref
  let (table, installed) := contribution.entries.foldl install (w.table, ⟨[], [], refs⟩)
  let scripts := contribution.scripts.foldl (fun scripts s => scripts.register s.ref s.callable)
    w.scripts
  { w with table, scripts, active := w.active.insert addon installed }

/-- Loads an addon and installs what it brings, or nothing at all if that conflicts with the
table. -/
def activate (source : AddonSource σ) (addon : String) (w : Workspace σ) :
    Except AddonError Unit × Workspace σ :=
  match source.load addon w.source with
  | (.error error, state) => (.error error, { w with source := state })
  | (.ok contribution, state) =>
    match SymbolTable.conflict? w.table [] contribution.entries with
    | some error => (.error error, { w with source := (source.unload addon state).2 })
    | none => (.ok (), { w with source := state }.accept addon contribution)

/-- The first active addon that adopted a symbol, with its own entry for it. -/
def heir? (active : NameMap Installed) (name : String) (symbol : Symbol) :
    Option (String × Installed × (String × Symbol)) :=
  active.toList.findSome? fun (addon, installed) =>
    (installed.adopted? name symbol).map fun entry => (addon, installed, entry)

/-- Takes an entry of a deactivated addon out of the table, unless it has been changed or another
addon takes it over. -/
def release (state : SymbolTable × NameMap Installed) (entry : String × Symbol) :
    SymbolTable × NameMap Installed :=
  let (table, active) := state
  if SymbolTable.holds table entry.1 entry.2 then
    match heir? active entry.1 entry.2 with
    | some (addon, installed, own) => (table, active.insert addon (installed.inherit own))
    | none => (table.erase entry.1, active)
  else (table, active)

/-- Removes what an addon installed, and unloads it. -/
def deactivate (source : AddonSource σ) (addon : String) (w : Workspace σ) :
    Except AddonError Unit × Workspace σ :=
  let installed := w.active[addon]?.getD .none
  let (table, active) := installed.symbols.foldl release (w.table, w.active.erase addon)
  let scripts := installed.scripts.foldl ScriptRegistry.unregister w.scripts
  let (result, state) := source.unload addon w.source
  (result, { table, scripts, active, source := state })

/-- The steps that make a set the active one: deactivations, then activations. -/
def plan (w : Workspace σ) (requested : NameSet) : List AddonStep :=
  (w.active.keys.filter (· ∉ requested)).map (⟨.deactivate, ·⟩) ++
    (requested.toList.filter (· ∉ w.active)).map (⟨.activate, ·⟩)

/-- Takes a step. -/
def perform (source : AddonSource σ) (step : AddonStep) (w : Workspace σ) :
    Except AddonError Unit × Workspace σ :=
  match step.operation with
  | .activate => w.activate source step.addon
  | .deactivate => w.deactivate source step.addon

/-- Takes some steps, whether or not those before them fail, and lists the failures. -/
def performAll (source : AddonSource σ) : List AddonStep → Workspace σ →
    List AddonFailure × Workspace σ
  | [], w => ([], w)
  | step :: rest, w =>
    let (result, w) := w.perform source step
    let (failures, w) := performAll source rest w
    match result with
    | .ok () => (failures, w)
    | .error error => (⟨step, error⟩ :: failures, w)

/-- Makes a set of addons the active one, and lists the steps that failed. -/
def setActive (source : AddonSource σ) (requested : NameSet) (w : Workspace σ) :
    List AddonFailure × Workspace σ :=
  performAll source (w.plan requested) w

/-- Takes an entry out of a table, unless it has been changed. -/
def withoutEntry (table : SymbolTable) (entry : String × Symbol) : SymbolTable :=
  if SymbolTable.holds table entry.1 entry.2 then table.erase entry.1 else table

/-- The table without the symbols that active addons own and that are unchanged. -/
def userSymbols (w : Workspace σ) : SymbolTable :=
  (w.active.toList.flatMap fun (_, installed) => installed.symbols).foldl withoutEntry w.table

/-- A description of the active addons. -/
def describe (w : Workspace σ) : String :=
  "AddonManager \x7b active: " ++ Text.shownList w.active.keys ++ " \x7d"

end Workspace

end Reckoner
