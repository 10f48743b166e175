/-
Every symbol can be written.

Names enter a table in four ways: an assignment names a variable in the text that it evaluates, a
definition and a document bring names of their own, and so do the manifests of addons.

* `SymbolTable.Writable` — every name of a table is valid.
* `AddonSource.Named` — a source brings valid names only; so does that of directories
  (`AddonDirectory.source_named`).
* `Session.writable_serve` — **a request leaves a table with valid names.**
* `Session.serveAmid`, `Session.names_serveAmid` — **after any requests all names are valid**, also if
  the files of addons are changed between them, and a valid name is what a text is read as an
  identifier by.
-/

import Reckoner.Proofs.Addon.Directory
import Reckoner.Proofs.Expression.Names
import Reckoner.Proofs.Session.Runs

namespace Reckoner

/-! ### Tables -/

/-- Every name of a table is valid. -/
def SymbolTable.Writable (table : SymbolTable) : Prop := ∀ name ∈ table, isValidName name

namespace SymbolTable.Writable

variable {table : SymbolTable} {name : String}

theorem empty : Writable ∅ := fun _ member => absurd member Std.ExtTreeMap.not_mem_empty

theorem insert (writable : table.Writable) (valid : isValidName name) (symbol : Symbol) :
    Writable (table.insert name symbol) := by
  intro other member
  rcases Std.ExtTreeMap.mem_insert.mp member with same | before
  · rwa [← Std.LawfulEqCmp.compare_eq_iff_eq.mp same]
  · exact writable other before

theorem erase (writable : table.Writable) (name : String) : Writable (table.erase name) :=
  fun other member => writable other (Std.ExtTreeMap.mem_of_mem_erase member)

/-- **An evaluation leaves a table with valid names**, for it reads the names that it assigns to. -/
theorem evaluate (writable : table.Writable) (text : String) (scripts : ScriptRegistry)
    (options : EvalOptions) : Writable (evaluate text table scripts options).2 := by
  rcases evaluated : Reckoner.evaluate text table scripts options with ⟨error | value, after⟩
  · rwa [evaluate_eq_error evaluated]
  · obtain ⟨program, state, parsed, ran, rfl⟩ := evaluate_eq_ok.mp evaluated
    intro name member
    by_cases target : name ∈ Program.targets program
    · exact isValidName_of_mem_targets parsed target
    · refine writable name ?_
      rw [Std.ExtTreeMap.mem_iff_isSome_getElem?] at member ⊢
      rwa [EvalState.getElem?_commit, (Written.run ran).untouched name target] at member

theorem foldlM_add (writable : table.Writable) {entries : List (String × Symbol)}
    {after : SymbolTable} (added : entries.foldlM SymbolDocument.add table = .ok after) :
    after.Writable := by
  induction entries generalizing table with
  | nil =>
    cases added
    exact writable
  | cons entry rest ih =>
    obtain ⟨between, first, others⟩ := foldlM_cons_eq_ok.mp added
    obtain ⟨valid, -, rfl⟩ := SymbolDocument.add_eq_ok.mp first
    exact ih (writable.insert valid entry.2) others

/-- **A document is read as a table with valid names.** -/
theorem of_read {text : String} (read : SymbolTable.read text = .ok table) : table.Writable := by
  obtain ⟨document, -, made⟩ := bind_eq_ok.mp read
  obtain ⟨entries, -, added⟩ := bind_eq_ok.mp made
  exact empty.foldlM_add added

theorem release {state : SymbolTable × NameMap Installed} (writable : state.1.Writable)
    (entry : String × Symbol) : (Workspace.release state entry).1.Writable := by
  obtain ⟨table, active⟩ := state
  rcases Workspace.release_cases table active entry with ⟨-, result⟩ |
    ⟨-, heir, installed, own, -, -, result⟩ | ⟨-, -, result⟩
  · rwa [result]
  · rwa [result]
  · rw [result]
    exact writable.erase entry.1

end SymbolTable.Writable

/-! ### Addons -/

/-- A source brings valid names only. -/
def AddonSource.Named {σ : Type} (source : AddonSource σ) : Prop :=
  ∀ addon state contribution, (source.load addon state).1 = .ok contribution →
    ∀ entry ∈ contribution.entries, isValidName entry.1

namespace Workspace

variable {σ : Type} {source : AddonSource σ} {w : Workspace σ}

theorem writable_activate (named : source.Named) (writable : w.table.Writable) (addon : String) :
    (w.activate source addon).2.table.Writable := by
  intro name member
  obtain ⟨symbol, found⟩ :=
    Option.isSome_iff_exists.mp (Std.ExtTreeMap.mem_iff_isSome_getElem?.mp member)
  rcases getElem?_activate_cases found with before | ⟨contribution, ⟨loaded, -⟩, brought⟩
  · refine writable name (Std.ExtTreeMap.mem_iff_isSome_getElem?.mpr ?_)
    rw [before]
    rfl
  · exact named addon w.source contribution loaded _ brought

theorem writable_deactivate (writable : w.table.Writable) (addon : String) :
    (w.deactivate source addon).2.table.Writable := by
  rw [deactivate_snd]
  refine List.foldlRecOn (motive := fun state : SymbolTable × NameMap Installed =>
    state.1.Writable) _ _ writable fun state writable entry _ => ?_
  exact writable.release entry

/-- **Making a set of addons active leaves a table with valid names.** -/
theorem writable_setActive (named : source.Named) (writable : w.table.Writable)
    (requested : NameSet) : (w.setActive source requested).2.table.Writable :=
  setActive_induction (motive := fun w => w.table.Writable)
    (fun _ addon writable => writable_activate named writable addon)
    (fun _ addon writable => writable_deactivate writable addon) requested writable

end Workspace

namespace AddonDirectory

variable {addon name : String}

theorem isValidName_of_checkName (checked : checkName addon name = .ok ()) : isValidName name := by
  rw [← nameFault?_eq_none_iff]
  unfold checkName at checked
  split at checked
  · cases checked
  · assumption

theorem script_name {module : Option CompiledScript} {described : ScriptEntry}
    {contributed : ScriptContribution} (made : script addon module name described = .ok contributed) :
    isValidName contributed.name := by
  unfold script at made
  obtain ⟨⟨⟩, checked, rest⟩ := bind_eq_ok.mp made
  cases module with
  | none => cases rest
  | some module =>
    obtain ⟨arity, -, ⟨⟩⟩ := bind_eq_ok.mp rest
    exact isValidName_of_checkName checked

/-- **The addons in directories bring valid names only**: manifests are refused otherwise. -/
theorem source_named : AddonDirectory.source.Named := by
  intro addon directory contribution loaded entry brought
  obtain ⟨module, made⟩ := contribution_of_result loaded
  unfold AddonDirectory.contribution at made
  simp only [bind_eq_ok] at made
  obtain ⟨manifest, -, constants, constantsMade, functions, functionsMade, _, -, scripts,
    scriptsMade, ⟨⟩⟩ := made
  rcases List.mem_append.mp brought with symbol | script
  · rcases List.mem_append.mp symbol with isConstant | isFunction
    · obtain ⟨_, -, described⟩ := exists_of_mem_mapM constantsMade isConstant
      obtain ⟨checked, _, -, rfl⟩ := symbolOf_eq_ok.mp described
      exact isValidName_of_checkName checked
    · obtain ⟨_, -, described⟩ := exists_of_mem_mapM functionsMade isFunction
      obtain ⟨checked, _, -, rfl⟩ := symbolOf_eq_ok.mp described
      exact isValidName_of_checkName checked
  · obtain ⟨contributed, among, rfl⟩ := List.mem_map.mp script
    obtain ⟨_, -, described⟩ := exists_of_mem_mapM scriptsMade among
    exact script_name described

end AddonDirectory

/-! ### Sessions -/

namespace Session

variable {σ : Type} {source : AddonSource σ} {session : Session σ}

/-- A definition gives a function a valid name, or the name of another function. -/
theorem writable_define {name : String} {arguments : List String} {expression : String}
    {after : Session σ} (writable : session.table.Writable)
    (defined : session.define name arguments expression = .ok after) : after.table.Writable := by
  have valid : isValidName name := by
    by_cases known : name ∈ session.table
    · exact writable name known
    · have missing : session.table.kind? name = none := by
        rw [SymbolTable.kind?, Std.ExtTreeMap.getElem?_eq_none known]
        rfl
      rw [← nameFault?_eq_none_iff]
      unfold define SymbolTable.nameError? at defined
      rw [missing] at defined
      cases fault : nameFault? name with
      | none => rfl
      | some fault =>
        rw [fault] at defined
        cases defined
  obtain ⟨function, rfl⟩ := define_eq_ok defined
  exact writable.insert valid _

/-- **A request leaves a table with valid names.** -/
theorem writable_serve (named : source.Named) (writable : session.table.Writable)
    (request : Request) : (session.serve source request).table.Writable := by
  cases request with
  | evaluate text => exact writable.evaluate text session.scripts session.options
  | define name arguments expression =>
    unfold serve
    simp only
    split
    · rename_i after defined
      exact writable_define writable defined
    · exact writable
  | undefine name =>
    rcases serve_undefine source session name with same | erased
    · rwa [same]
    · rw [erased]
      exact writable.erase name
  | setActive requested => exact Workspace.writable_setActive named writable requested
  | importTable text =>
    unfold serve
    simp only
    cases accepted : SymbolTable.read text with
    | error error =>
      unfold importTable
      rw [accepted]
      exact writable
    | ok table =>
      rw [importTable_of_read accepted]
      exact Workspace.writable_setActive (w := (session.emptied source table).toWorkspace) named
        (.of_read accepted) session.activeSet

/-- The session after the files below the root of its addons have been replaced. -/
def withFiles (files : FileTree) (session : Session AddonDirectory) : Session AddonDirectory :=
  { session with source := { session.source with files } }

/-- The session after some requests, before each of which the files of the addons are replaced. -/
def serveAmid (requests : List (FileTree × Request)) (session : Session AddonDirectory) :
    Session AddonDirectory :=
  requests.foldl (fun session request =>
    (session.withFiles request.1).serve AddonDirectory.source request.2) session

/-- **After any requests all names of the table are valid, and so are the argument names of its
functions, which are distinct.** A valid name is what a text is read as an identifier by. -/
theorem names_serveAmid (settings : Settings) (directory : AddonDirectory)
    (requests : List (FileTree × Request)) :
    (∀ name ∈ (serveAmid requests (start settings directory)).table, isValidName name) ∧
    (∀ (name : String) (function : UserFunction),
      (serveAmid requests (start settings directory)).table[name]? = some (.function function) →
        function.arguments.Nodup ∧ ∀ argument ∈ function.arguments, isValidName argument) ∧
    ∀ text, isValidName text ↔ ∃ span, parseExpression text = .ok (.ident text span) := by
  refine ⟨?_, fun name function _ => ?_, isValidName_iff_parseExpression⟩
  · have atFirst : (start settings directory).table.Writable := SymbolTable.Writable.empty
    refine List.foldlRecOn (motive := fun session : Session AddonDirectory =>
      session.table.Writable) _ _ atFirst fun session writable request _ => ?_
    have before : (session.withFiles request.1).table.Writable := writable
    exact writable_serve AddonDirectory.source_named before request.2
  · obtain ⟨distinct, valid⟩ := argumentFault?_eq_none_iff.mp function.wellFormed
    exact ⟨distinct, fun argument member => (valid argument member).1⟩

end Session

end Reckoner
