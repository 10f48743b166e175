/-
Addons in the directories below a root.

Every directory below the root that holds a manifest is an addon, named like the directory. Its
script has two optional entry points, which run when the addon is loaded and unloaded, and may ask
for any files then.

* `AddonDirectory` — the files, the root, the engine for scripts and the scripts of loaded addons.
* `AddonDirectory.manifest`, `AddonDirectory.load`, `AddonDirectory.unload` — operations on one
  addon.
* `AddonDirectory.source` — the source made of them.
-/

import Reckoner.Addon.Manifest
import Reckoner.Addon.Source
import Reckoner.Script.Engine

namespace Reckoner

/-- Addons in the directories below a root. -/
structure AddonDirectory where
  /-- What compiles the scripts. -/
  [engine : ScriptEngine]
  files : FileTree
  root : String
  /-- Budget of steps for each call of a script; zero for none. -/
  budget : Nat
  /-- The scripts of loaded addons. -/
  loaded : NameMap CompiledScript

namespace AddonDirectory

/-- The name of the manifest in the directory of an addon. -/
def manifestFile : String := "addon.json"

/-- The path of the directory of an addon. -/
def directory (source : AddonDirectory) (addon : String) : List Char :=
  Path.join source.root.toList addon.toList

/-- The path of the manifest of an addon. -/
def manifestPath (source : AddonDirectory) (addon : String) : List Char :=
  Path.join (source.directory addon) manifestFile.toList

/-- Reads a file. -/
def readFile (source : AddonDirectory) (path : List Char) : Except AddonError String :=
  (source.files.read path).mapError (.unreadable (String.ofList path))

/-- The addons below the root. There are none if the root is not there. -/
def discover (source : AddonDirectory) : Except AddonError NameSet :=
  match source.files.names source.root.toList with
  | .ok names => .ok (names.filter fun addon => source.files.isFile (source.manifestPath addon))
  | .error .missing => .ok ∅
  | .error error => .error (.unreadable source.root error)

/-- The manifest of an addon, which has to be named by a single name. -/
def manifest (source : AddonDirectory) (addon : String) : Except AddonError Manifest := do
  let path := source.manifestPath addon
  if !Path.isName addon.toList || !source.files.isFile path then throw (.notFound addon)
  (Manifest.read (← source.readFile path)).mapError fun fault => .manifest addon fault.category

/-! ### Contributions -/

/-- Refuses a name that no symbol can have. -/
def checkName (addon name : String) : Except AddonError Unit :=
  match nameFault? name with
  | some fault => .error (.manifest addon fault.message)
  | none => .ok ()

/-- The symbol of an entry with some content. Its name and its content have to be valid. -/
def symbolOf {ε α : Type} (addon name : String) (content : Except ε α) (describe : ε → String)
    (symbol : α → Symbol) : Except AddonError (String × Symbol) := do
  checkName addon name
  let value ← content.mapError fun error => .manifest addon (describe error)
  pure (name, symbol value)

/-- The constant of a numeral. -/
def constant (addon name text : String) : Except AddonError (String × Symbol) :=
  symbolOf addon name (Number.fromDecimalStored text .nearest)
    (fun error => s!"constant '{name}': {error.message}")
    fun value => .constant ⟨value, some (writtenDecimals text)⟩

/-- The function of an entry. -/
def function (addon name : String) (entry : FunctionEntry) :
    Except AddonError (String × Symbol) :=
  symbolOf addon name (UserFunction.define entry.arguments entry.expression)
    (fun error => s!"function '{name}': {error.message}") .function

/-- The script of a file, whose path has to stay inside the directory of the addon. -/
def compile (source : AddonDirectory) (addon path : String) : Except AddonError CompiledScript := do
  if !Path.staysBelow path.toList then
    throw (.manifest addon s!"script path {path} must stay inside the addon directory")
  let text ← source.readFile (Path.join (source.directory addon) path.toList)
  (source.engine.compile text source.budget).mapError (.script addon)

/-- The number of arguments of a script: what the entry says, which some function has to take, or
what the function of that name takes. -/
def scriptArity (addon name : String) (module : CompiledScript) (entry : ScriptEntry) :
    Except AddonError Nat :=
  match entry.arity with
  | some arity =>
    if module.hasFunction entry.function arity then .ok arity
    else .error (.manifest addon
      s!"script '{name}': no function {entry.function}/{arity} in the script file")
  | none =>
    match module.arityOf? entry.function with
    | some arity => .ok arity
    | none => .error (.manifest addon
      s!"script '{name}': no function '{entry.function}' in the script file")

/-- The script of an entry. -/
def script (addon : String) (module : Option CompiledScript) (name : String) (entry : ScriptEntry) :
    Except AddonError ScriptContribution := do
  checkName addon name
  match module with
  | none => throw (.manifest addon s!"script '{name}' needs a script file")
  | some module =>
    let arity ← scriptArity addon name module entry
    pure ⟨name, ⟨addon, entry.function, arity⟩, module.callable entry.function⟩

/-- What an addon brings, and its script. -/
def contribution (source : AddonDirectory) (addon : String) :
    Except AddonError (Contribution × Option CompiledScript) := do
  let manifest ← source.manifest addon
  let constants ← manifest.constants.toList.mapM fun (name, text) => constant addon name text
  let functions ← manifest.functions.toList.mapM fun (name, entry) => function addon name entry
  let module ← manifest.script.mapM (source.compile addon)
  let scripts ← manifest.scripts.toList.mapM fun (name, entry) => script addon module name entry
  pure (⟨constants ++ functions, scripts⟩, module)

/-! ### The source -/

/-- Loads an addon and runs its first entry point. -/
def load (addon : String) (source : AddonDirectory) :
    Except AddonError Contribution × AddonDirectory :=
  match source.contribution addon with
  | .error error => (.error error, source)
  | .ok (contribution, none) => (.ok contribution, source)
  | .ok (contribution, some module) =>
    match (module.runEntryPoint "load").result source.files with
    | .error message => (.error (.script addon message), source)
    | .ok () => (.ok contribution, { source with loaded := source.loaded.insert addon module })

/-- Unloads an addon and runs its last entry point. -/
def unload (addon : String) (source : AddonDirectory) :
    Except AddonError Unit × AddonDirectory :=
  match source.loaded[addon]? with
  | none => (.ok (), source)
  | some module =>
    (((module.runEntryPoint "unload").result source.files).mapError (.script addon),
      { source with loaded := source.loaded.erase addon })

/-- The source made of a directory. -/
def source : AddonSource AddonDirectory := ⟨discover, load, unload⟩

end AddonDirectory

end Reckoner
