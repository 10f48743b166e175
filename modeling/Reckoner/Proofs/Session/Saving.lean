/-
Saving the table of a session and loading it again.

* `SymbolTable.same_iff` — tables are equal but for precision labels if they hold the same.
* `Session.requestAll` — the session after some requests for sets of active addons.
* `Explained.replaceUser` — what explains a workspace, once its user has another table.
* `Session.importTable_exportTable` — **importing what has just been exported changes nothing**, in
  whichever order the addons were activated and handed entries over.
-/

import Reckoner.Proofs.Addon.Concord
import Reckoner.Proofs.Session.Import

namespace Reckoner

/-! ### Tables that hold the same -/

namespace SymbolTable

theorem getElem?_unlabelled (table : SymbolTable) (name : String) :
    table.unlabelled[name]? = table[name]?.map Symbol.unlabelled := by
  unfold unlabelled
  exact Std.ExtTreeMap.getElem?_map

theorem holds_iff_unlabelled {table : SymbolTable} {name : String} {symbol : Symbol} :
    table.holds name symbol ↔ table.unlabelled[name]? = some symbol.unlabelled := by
  simp [holds_iff, getElem?_unlabelled, Symbol.same_iff]

/-- **Tables are equal but for precision labels** if they hold the same. -/
theorem same_iff {a b : SymbolTable} :
    a.same b ↔ ∀ name symbol, a.holds name symbol ↔ b.holds name symbol := by
  unfold same
  rw [decide_eq_true_iff]
  constructor
  · intro equal name symbol
    rw [holds_iff_unlabelled, holds_iff_unlabelled, equal]
  · intro alike
    refine Std.ExtTreeMap.ext_getElem? fun name => Option.ext fun symbol => ?_
    simp only [getElem?_unlabelled, Option.map_eq_some_iff]
    constructor
    · rintro ⟨held, found, rfl⟩
      have there := (alike name held).mp (holds_of_getElem? found)
      simpa [holds_iff_unlabelled, getElem?_unlabelled] using there
    · rintro ⟨held, found, rfl⟩
      have there := (alike name held).mpr (holds_of_getElem? found)
      simpa [holds_iff_unlabelled, getElem?_unlabelled] using there

/-- A table has no entry of a name under which it holds nothing. -/
theorem forall_not_holds_iff {table : SymbolTable} {name : String} :
    (∀ symbol, ¬ table.holds name symbol) ↔ table[name]? = none := by
  constructor
  · intro nothing
    cases found : table[name]? with
    | none => rfl
    | some symbol => exact absurd (holds_of_getElem? found) (nothing symbol)
  · exact fun absent symbol held => ne_none_of_holds held absent

end SymbolTable

/-! ### A workspace whose user has another table -/

/-- **Without active addons the user of a workspace can have any table.** -/
theorem Explained.replaceUser {σ : Type} {offer : String → Contribution} {user : SymbolTable}
    {registered : List ScriptRef} {w : Workspace σ}
    (explained : Explained offer user registered w) (inactive : ∀ addon, addon ∉ w.active)
    (table : SymbolTable) : Explained offer table registered { w with table } := by
  refine ⟨?_, explained.scripts⟩
  have empty : w.active = ∅ := Std.ExtTreeMap.eq_empty_iff_forall_not_mem.mpr inactive
  show Ownership offer table table w.active []
  rw [empty]
  exact Ownership.initial offer table

/-- An explained table holds what its user holds, and what active addons bring under other names. -/
theorem Explained.holds_iff_or {σ : Type} {offer : String → Contribution} {user : SymbolTable}
    {registered : List ScriptRef} {w : Workspace σ}
    (explained : Explained offer user registered w) {name : String} {symbol : Symbol} :
    w.table.holds name symbol ↔ user.holds name symbol ∨
      (user[name]? = none ∧ ∃ addon ∈ w.active, (offer addon).Brings name symbol) := by
  cases byUser : user[name]? with
  | none =>
    have absent : ¬ user.holds name symbol := fun held => SymbolTable.ne_none_of_holds held byUser
    simp [explained.holds_iff byUser, absent]
  | some existing =>
    have kept := explained.ownership.kept name existing byUser
    simp [SymbolTable.holds, byUser, kept]

/-- **What active addons bring joins equal tables of the user into equal tables**, in whichever order
the addons were activated. -/
theorem Explained.same_table {σ τ : Type} {offer : String → Contribution}
    {user user' : SymbolTable} {registered registered' : List ScriptRef} {w : Workspace σ}
    {w' : Workspace τ} (explained : Explained offer user registered w)
    (explained' : Explained offer user' registered' w') (equal : user.same user')
    (alike : ∀ addon, addon ∈ w.active ↔ addon ∈ w'.active) : w.table.same w'.table := by
  refine SymbolTable.same_iff.mpr fun name symbol => ?_
  have absent : user[name]? = none ↔ user'[name]? = none := by
    simp only [← SymbolTable.forall_not_holds_iff, SymbolTable.same_iff.mp equal]
  rw [explained.holds_iff_or, explained'.holds_iff_or, SymbolTable.same_iff.mp equal, absent]
  simp only [alike]

/-! ### Saving and loading -/

namespace Session

variable {σ : Type} {source : AddonSource σ}
  {result : String → Except AddonError Contribution} {user : SymbolTable}

/-- A session with the table of a user and without active addons. -/
def startWith (settings : Settings) (state : σ) (user : SymbolTable) : Session σ :=
  { start settings state with table := user }

/-- The session after some requests for sets of active addons. -/
def requestAll (source : AddonSource σ) (requests : List NameSet) (session : Session σ) : Session σ :=
  requests.foldl (fun session requested => (session.setActive source requested).2) session

/-- A session whose table has its entries from the user and from active addons that can be loaded
again. -/
structure Saveable (result : String → Except AddonError Contribution) (user : SymbolTable)
    (session : Session σ) : Prop where
  explained : Explained (offerOf result) user [] session.toWorkspace
  loadable : session.toWorkspace.Loadable result

namespace Saveable

variable {session : Session σ}

theorem start (settings : Settings) (state : σ) :
    Saveable result user (startWith settings state user) := by
  refine ⟨⟨Ownership.initial _ user, fun ref => ?_⟩, fun addon isActive => ?_⟩
  · refine iff_of_false List.not_mem_nil ?_
    rintro (none | ⟨addon, isActive, -⟩)
    · cases none
    · exact Std.ExtTreeMap.not_mem_empty isActive
  · exact absurd isActive Std.ExtTreeMap.not_mem_empty

theorem setActive (fixed : source.Fixed result) (separate : Separate (offerOf result) [])
    (saveable : Saveable result user session) (requested : NameSet) :
    Saveable result user (session.setActive source requested).2 :=
  ⟨saveable.explained.setActive fixed.steady separate requested,
    saveable.loadable.setActive fixed requested⟩

theorem requestAll (fixed : source.Fixed result) (separate : Separate (offerOf result) [])
    (saveable : Saveable result user session) (requests : List NameSet) :
    Saveable result user (session.requestAll source requests) := by
  induction requests generalizing session with
  | nil => exact saveable
  | cons requested rest ih => exact ih (saveable.setActive fixed separate requested)

/-- What an active addon brings is held by the table, without a repeated name. -/
theorem joins (saveable : Saveable result user session) {addon : String}
    (isActive : addon ∈ session.active) :
    Workspace.Joins result (fun name symbol => session.table.holds name symbol) addon := by
  have ownership := saveable.explained.ownership
  obtain ⟨contribution, loaded, distinct⟩ :=
    saveable.loadable.exists_contribution ownership.shares isActive
  obtain ⟨installed, found⟩ :=
    Option.isSome_iff_exists.mp (Std.ExtTreeMap.mem_iff_isSome_getElem?.mp isActive)
  have held := ownership.held addon installed found
  rw [offerOf_eq loaded] at held
  exact ⟨contribution, loaded, distinct, held⟩

/-- **All addons become active again with the table of the user**: the table of the session holds all
that has to come together. -/
theorem reactivate (fixed : source.Fixed result) (saveable : Saveable result user session)
    {start : Session σ} (inactive : ∀ addon, addon ∉ start.active) (equal : start.table.same user) :
    (start.setActive source session.activeSet).1 = [] ∧
      (start.setActive source session.activeSet).2.activeSet = session.activeSet := by
  have agreeing : Agreeing fun name symbol => session.table.holds name symbol :=
    fun name a b first second => SymbolTable.same_of_holds first second
  refine Workspace.setActive_agreeing fixed agreeing inactive
    (fun addon member => saveable.joins (Workspace.mem_activeSet.mp member))
    fun name symbol found => ?_
  obtain ⟨existing, byUser, same⟩ := SymbolTable.holds_iff.mp
    ((SymbolTable.same_iff.mp equal name symbol).mp (SymbolTable.holds_of_getElem? found))
  exact SymbolTable.holds_iff.mpr
    ⟨existing, saveable.explained.ownership.kept name existing byUser, same⟩

end Saveable

/-- **Importing what has just been exported changes nothing.**

The session is reached from the table of a user by requests for sets of active addons. Every addon is
always loaded with the same result and unloaded without failure, and no two addons share a script.
The table of the user is the same once it is saved and read again, but for precision labels. Then
importing the exported table reports no failures, and the table, the active addons and the registered
scripts are as before. -/
theorem importTable_exportTable (fixed : source.Fixed result)
    (unloads : ∀ addon state, (source.unload addon state).1 = .ok ())
    (apart : ∀ addon other ref, ref ∈ (offerOf result addon).refs →
      ref ∈ (offerOf result other).refs → addon = other)
    {reloaded : SymbolTable} (saved : SymbolTable.read user.text = .ok reloaded)
    (equal : reloaded.same user) (settings : Settings) (state : σ) (requests : List NameSet) :
    let session := (startWith settings state user).requestAll source requests
    ∃ after, session.importTable source session.exportTable = .ok ([], after) ∧
      after.table.same session.table ∧ after.activeSet = session.activeSet ∧
      ∀ ref, ref ∈ after.scripts.refs ↔ ref ∈ session.scripts.refs := by
  intro session
  have separate : Separate (offerOf result) [] := ⟨apart, fun _ _ _ => List.not_mem_nil⟩
  have saveable : Saveable result user session :=
    (Saveable.start settings state).requestAll fixed separate requests
  generalize session = session at saveable
  have exported : session.exportTable = user.text :=
    congrArg SymbolTable.text (Workspace.userSymbols_eq saveable.explained)
  have unloaded : (session.setActive source ∅).1 = [] := Workspace.setActive_empty_fst unloads
  have cleared : Explained (offerOf result) reloaded [] (session.emptied source reloaded).toWorkspace :=
    (saveable.explained.setActive fixed.steady separate ∅).replaceUser
      (fun _ => Workspace.not_mem_setActive_empty) reloaded
  have inactive (addon : String) : addon ∉ (session.emptied source reloaded).active :=
    not_mem_emptied addon
  have replaced : (session.emptied source reloaded).table.same user := equal
  rw [exported, importTable_of_read saved, unloaded]
  generalize session.emptied source reloaded = start at cleared inactive replaced ⊢
  obtain ⟨activated, active⟩ := saveable.reactivate fixed inactive replaced
  have explained : Explained (offerOf result) reloaded []
      (start.setActive source session.activeSet).2.toWorkspace :=
    cleared.setActive fixed.steady separate session.activeSet
  have alike (addon : String) : addon ∈ (start.setActive source session.activeSet).2.active ↔
      addon ∈ session.active := by
    rw [← Workspace.mem_activeSet, active, Workspace.mem_activeSet]
  refine ⟨_, ?_, explained.same_table saveable.explained equal alike, active, fun ref => ?_⟩
  · rw [activated]
    rfl
  · rw [explained.scripts, saveable.explained.scripts]
    simp only [alike]

theorem pair_apart {addon : String} {ref : ScriptRef}
    (brought : ref ∈ (offerOf pairResult addon).refs) : addon = "a" := by
  by_cases first : addon = "a"
  · exact first
  · unfold offerOf pairResult at brought
    rw [if_neg first] at brought
    split at brought <;> cases brought

/-- A function that one addon has handed over to another is left out of the document, and a function
of the user that an addon brings too stays in it. -/
theorem importTable_exportTable_pair :
    let user : SymbolTable := (∅ : SymbolTable).insert "g" (ofN "n * 2")
    let session := (startWith {} () user).requestAll pair [.ofList ["b"] compare,
      .ofList ["a", "b"] compare, .ofList ["a"] compare, .ofList ["a", "b"] compare]
    session.activeSet.toList = ["a", "b"] ∧ session.userSymbols = user ∧
      ∃ after, session.importTable pair session.exportTable = .ok ([], after) ∧
        after.table.same session.table ∧ after.activeSet = session.activeSet := by
  refine ⟨by decide +kernel, by decide +kernel, ?_⟩
  obtain ⟨after, imported, table, active, -⟩ := @importTable_exportTable Unit pair pairResult
    ((∅ : SymbolTable).insert "g" (ofN "n * 2")) (fun _ _ => rfl) (fun _ _ => rfl)
    (fun addon other ref here there => (pair_apart here).trans (pair_apart there).symm) _
    (read_ofN (by decide +kernel) "n * 2") (SymbolTable.same_iff.mpr fun _ _ => Iff.rfl) {} ()
    [.ofList ["b"] compare, .ofList ["a", "b"] compare, .ofList ["a"] compare,
      .ofList ["a", "b"] compare]
  exact ⟨after, imported, table, active⟩

end Session

end Reckoner
