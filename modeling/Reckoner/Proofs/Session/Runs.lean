/-
Runs of requests to a session.

* `Session.serveAll` — the session after some requests.
* `Session.Provides`, `Session.Undisturbed` — an active addon brings a symbol under a name; none of
  some requests defines or removes such a name.
* `Session.serveAll_mapSource` — sessions over sources that behave alike serve requests alike.
* `Session.standing_serveAll` — **after a run that leaves the names of active addons alone, the table
  has all they bring.** An evaluation can assign to variables only, so it leaves these names alone if
  no addon brings a variable.
-/

import Reckoner.Proofs.Addon.Sources
import Reckoner.Proofs.Addon.Standing
import Reckoner.Proofs.Session.Import
import Reckoner.Proofs.Session.Requests

namespace Reckoner

theorem Symbol.kind_eq_of_same {a b : Symbol} (same : a.same b) : a.kind = b.kind := by
  have unlabelled (symbol : Symbol) : symbol.unlabelled.kind = symbol.kind := by
    cases symbol <;> rfl
  rw [← unlabelled a, ← unlabelled b, same_iff.mp same]

namespace Session

variable {σ τ : Type} {source : AddonSource σ} {session : Session σ}

/-! ### Runs -/

/-- The session after some requests. -/
def serveAll (source : AddonSource σ) (requests : List Request) (session : Session σ) : Session σ :=
  requests.foldl (serve source) session

/-- The name that a request defines or removes. -/
def Request.edited? : Request → Option String
  | .define name _ _ => some name
  | .undefine name => some name
  | .evaluate _ | .setActive _ | .importTable _ => none

/-- An active addon brings a symbol under a name. -/
def Provides (source : AddonSource σ) (session : Session σ) (name : String) : Prop :=
  ∃ addon ∈ session.active, ∃ contribution,
    (source.load addon session.source).1 = .ok contribution ∧
      name ∈ contribution.entries.map Prod.fst

/-- **None of some requests defines or removes a name that an active addon brings.** -/
def Undisturbed (source : AddonSource σ) : List Request → Session σ → Prop
  | [], _ => True
  | request :: rest, session =>
    (∀ name, request.edited? = some name → ¬ session.Provides source name) ∧
      Undisturbed source rest (session.serve source request)

/-! ### Sources that behave alike -/

section Sources

variable {other : AddonSource τ} {f : σ → τ}

/-- The session with the image of the state of its source. -/
def mapSource (f : σ → τ) (session : Session σ) : Session τ :=
  ⟨session.toWorkspace.mapSource f, session.settings⟩

theorem setActive_mapSource (maps : source.Maps other f) (requested : NameSet)
    (session : Session σ) :
    (session.mapSource f).setActive other requested =
      ((session.setActive source requested).1,
        (session.setActive source requested).2.mapSource f) := by
  unfold setActive mapSource
  rw [Workspace.setActive_mapSource maps]

theorem define_mapSource (f : σ → τ) (session : Session σ) (name : String)
    (arguments : List String) (expression : String) :
    (session.mapSource f).define name arguments expression =
      (session.define name arguments expression).map (mapSource f) := by
  have table : (session.mapSource f).table = session.table := rfl
  unfold define
  simp only [table]
  by_cases other : session.table.kind? name ≠ some .function
  · cases session.table.nameError? name with
    | some error =>
      simp only [if_pos other]
      rfl
    | none =>
      simp only [if_pos other]
      cases UserFunction.define arguments expression <;> rfl
  · simp only [if_neg other]
    cases UserFunction.define arguments expression <;> rfl

theorem emptied_mapSource (maps : source.Maps other f) (table : SymbolTable) (session : Session σ) :
    (session.mapSource f).emptied other table = (session.emptied source table).mapSource f := by
  unfold emptied
  rw [setActive_mapSource maps]
  rfl

theorem importTable_mapSource (maps : source.Maps other f) (session : Session σ) (text : String) :
    (session.mapSource f).importTable other text =
      (session.importTable source text).map (Prod.map id (mapSource f)) := by
  have active : (session.mapSource f).activeSet = session.activeSet := rfl
  cases accepted : SymbolTable.read text with
  | error error =>
    unfold importTable
    rw [accepted]
    rfl
  | ok table =>
    rw [importTable_of_read accepted, importTable_of_read accepted, active, emptied_mapSource maps,
      setActive_mapSource maps, setActive_mapSource maps]
    rfl

/-- **Sessions over sources that behave alike serve a request alike.** -/
theorem serve_mapSource (maps : source.Maps other f) (session : Session σ) (request : Request) :
    (session.mapSource f).serve other request = (session.serve source request).mapSource f := by
  cases request with
  | evaluate text => rfl
  | define name arguments expression =>
    unfold serve
    simp only [define_mapSource]
    cases session.define name arguments expression <;> rfl
  | undefine name =>
    have table : (session.mapSource f).table = session.table := rfl
    unfold serve undefine?
    simp only [table]
    cases session.table.kind? name with
    | none => rfl
    | some kind => cases kind <;> rfl
  | setActive requested => exact congrArg Prod.snd (setActive_mapSource maps requested session)
  | importTable text =>
    unfold serve
    simp only [importTable_mapSource maps]
    cases session.importTable source text <;> rfl

theorem serveAll_mapSource (maps : source.Maps other f) (requests : List Request)
    (session : Session σ) :
    (session.mapSource f).serveAll other requests =
      (session.serveAll source requests).mapSource f := by
  induction requests generalizing session with
  | nil => rfl
  | cons request rest ih =>
    show ((session.mapSource f).serve other request).serveAll other rest = _
    rw [serve_mapSource maps, ih]
    rfl

theorem provides_mapSource (maps : source.Maps other f) (session : Session σ) (name : String) :
    (session.mapSource f).Provides other name ↔ session.Provides source name := by
  have loads (addon : String) : (other.load addon (session.mapSource f).source).1 =
      (source.load addon session.source).1 := congrArg Prod.fst (maps.load addon session.source)
  unfold Provides
  simp only [loads]
  exact Iff.rfl

theorem undisturbed_mapSource (maps : source.Maps other f) (requests : List Request)
    (session : Session σ) :
    Undisturbed other requests (session.mapSource f) ↔ Undisturbed source requests session := by
  induction requests generalizing session with
  | nil => exact Iff.rfl
  | cons request rest ih =>
    unfold Undisturbed
    simp only [provides_mapSource maps, serve_mapSource maps, ih]

end Sources

/-! ### What runs keep -/

section Kept

variable {result : String → Except AddonError Contribution}

/-- **Active addons can be loaded** after any request. -/
theorem loadable_serve (fixed : source.Fixed result) (loadable : session.Loadable result)
    (request : Request) : (session.serve source request).Loadable result := by
  rcases serve_cases source session request with same | ⟨requested, served⟩ | ⟨table, served⟩
  · intro addon isActive
    rw [same] at isActive
    exact loadable addon isActive
  · rw [served]
    exact Workspace.Loadable.setActive fixed loadable requested
  · rw [served]
    have cleared : (session.toWorkspace.setActive source ∅).2.Loadable result :=
      Workspace.Loadable.setActive fixed loadable ∅
    exact Workspace.Loadable.setActive (w := { (session.setActive source ∅).2.toWorkspace with table })
      fixed cleared session.activeSet

/-- What an active addon brings is provided. -/
theorem provides_of_offered (fixed : source.Fixed result) {name : String} {symbol : Symbol}
    (offered : Offered (offerOf result) session.active name symbol) : session.Provides source name := by
  obtain ⟨addon, isActive, brings⟩ := offered
  obtain ⟨contribution, loaded, brought⟩ := exists_of_mem_offerOf brings
  exact ⟨addon, isActive, contribution, by rw [fixed, loaded], List.mem_map_of_mem brought⟩

/-- **An evaluation leaves everything but variables as it is.** -/
theorem getElem?_evaluate_of_kind {name : String} {symbol : Symbol}
    (found : session.table[name]? = some symbol) (kind : symbol.kind ≠ .variable) (text : String) :
    (session.evaluate text).2.table[name]? = some symbol := by
  show (Reckoner.evaluate text session.table session.scripts session.options).2[name]? = some symbol
  rcases evaluated : Reckoner.evaluate text session.table session.scripts session.options with
    ⟨error | value, after⟩
  · rwa [evaluate_eq_error evaluated]
  · obtain ⟨program, state, -, ran, rfl⟩ := evaluate_eq_ok.mp evaluated
    have written := Written.run ran
    have other : name ∉ Program.targets program := fun member =>
      kind (written.unprotected name member symbol found)
    rw [EvalState.getElem?_commit, written.untouched name other]
    exact found

/-- A name that no active addon brings can get another entry. -/
theorem standing_edit (fixed : source.Fixed result)
    (standing : Standing (offerOf result) session.table session.active) {name : String}
    (unprovided : ¬ session.Provides source name) {after : SymbolTable}
    (others : ∀ other, name ≠ other → after[other]? = session.table[other]?) :
    Standing (offerOf result) after session.active := by
  refine standing.withTable fun other symbol offered => others other ?_
  rintro rfl
  exact unprovided (provides_of_offered fixed offered)

/-- **A request that leaves the names of active addons alone** leaves the table with what they
bring. -/
theorem standing_serve (fixed : source.Fixed result)
    (constant : ∀ addon, ∀ entry ∈ (offerOf result addon).entries, entry.2.kind ≠ .variable)
    (standing : Standing (offerOf result) session.table session.active) {request : Request}
    (undisturbed : ∀ name, request.edited? = some name → ¬ session.Provides source name) :
    Standing (offerOf result) (session.serve source request).table
      (session.serve source request).active := by
  cases request with
  | evaluate text =>
    refine standing.withTable fun name symbol ⟨addon, isActive, brings⟩ => ?_
    obtain ⟨existing, found, same⟩ :=
      SymbolTable.holds_iff.mp (standing.held addon isActive _ brings)
    rw [found]
    refine getElem?_evaluate_of_kind found ?_ text
    rw [Symbol.kind_eq_of_same same]
    exact constant addon _ brings
  | define name arguments expression =>
    unfold serve
    simp only
    split
    · rename_i after defined
      obtain ⟨function, rfl⟩ := define_eq_ok defined
      refine standing_edit fixed standing (undisturbed name rfl) fun other different => ?_
      rw [NameMap.getElem?_insert, if_neg different]
    · exact standing
  | undefine name =>
    rcases serve_undefine source session name with same | erased
    · rwa [same]
    · rw [erased]
      refine standing_edit fixed standing (undisturbed name rfl) fun other different => ?_
      rw [NameMap.getElem?_erase, if_neg different]
  | setActive requested => exact standing.setActive fixed.steady requested
  | importTable text =>
    unfold serve
    simp only
    split
    · rename_i failures after imported
      obtain ⟨table, rfl⟩ := importTable_eq_ok imported
      exact Standing.setActive (w := { (session.setActive source ∅).2.toWorkspace with table })
        fixed.steady (.of_inactive fun _ => Workspace.not_mem_setActive_empty) session.activeSet
    · exact standing

/-- **After a run that leaves the names of active addons alone, the table has all they bring.** -/
theorem standing_serveAll (fixed : source.Fixed result)
    (constant : ∀ addon, ∀ entry ∈ (offerOf result addon).entries, entry.2.kind ≠ .variable)
    (standing : Standing (offerOf result) session.table session.active) {requests : List Request}
    (undisturbed : Undisturbed source requests session) :
    Standing (offerOf result) (session.serveAll source requests).table
      (session.serveAll source requests).active := by
  induction requests generalizing session with
  | nil => exact standing
  | cons request rest ih =>
    exact ih (standing_serve fixed constant standing undisturbed.1) undisturbed.2

/-- **Active addons can be loaded** after any run, and bring no name twice. -/
theorem exists_contribution_serveAll (fixed : source.Fixed result)
    (loadable : session.Loadable result) (sharing : Sharing (offerOf result) session.active)
    (requests : List Request) :
    ∀ addon ∈ (session.serveAll source requests).active, ∃ contribution,
      result addon = .ok contribution ∧ (contribution.entries.map Prod.fst).Nodup := by
  induction requests generalizing session with
  | nil => exact fun addon isActive => loadable.exists_contribution sharing isActive
  | cons request rest ih =>
    exact ih (loadable_serve fixed loadable request) (sharing_serve fixed.steady sharing request)

end Kept

end Session

end Reckoner
