/-
The command line: lines of input, answered one after the other.

Files are asked for and not touched here. A step that needs one says what it wants to read or write
and how to go on; `Step.onTree` answers it from a tree of files that is a value.

* `Output` — what is printed, and what is printed as an error.
* `Shell` — the state between two lines.
* `Shell.start`, `Shell.interpret?`, `Shell.finish` — the start, a line of input, and the end.
* `Shell.runOnTree` — a whole run over a tree of files.
-/

import Reckoner.Addon.Directory
import Reckoner.CommandLine.Options
import Reckoner.Script.Module
import Reckoner.Session.Basic
import Reckoner.Session.Rendering

namespace Reckoner

/-! ### Output -/

/-- Texts for the output and for the output of errors. -/
structure Output where
  out : String := ""
  err : String := ""
deriving DecidableEq

namespace Output

/-- No output. -/
def none : Output := {}

/-- A line of output. -/
def line (text : String) : Output := { out := text ++ "\n" }

/-- Lines of output. -/
def lines (texts : List String) : Output := { out := String.join (texts.map (· ++ "\n")) }

/-- Lines of the output of errors. -/
def errors (texts : List String) : Output := { err := String.join (texts.map (· ++ "\n")) }

/-- A line of the output of errors. -/
def error (text : String) : Output := errors [text]

/-- One output after the other. -/
def andThen (first second : Output) : Output := ⟨first.out ++ second.out, first.err ++ second.err⟩

/-- The failures of steps, one a line. -/
def failures (failures : List AddonFailure) : Output := errors (failures.map AddonFailure.message)

/-- The failure of a file that is to be written. -/
def fileFailure (error : FileError) : Output := errors ["  × " ++ error.message, ""]

end Output

/-! ### State -/

/-- The state between two lines. -/
structure Shell where
  session : Session AddonDirectory
  /-- Whether the set of active addons is kept for the next run. -/
  keepsAddons : Bool

/-- What a step needs before it can go on. -/
inductive Step (α : Type) where
  | done (result : α)
  | read (path : String) (next : Except FileError String → Step α)
  /-- Asks for a tree with all that lies below a directory. -/
  | browse (path : String) (next : FileTree → Step α)
  | write (path text : String) (next : Except FileError Unit → Step α)
  /-- Makes a directory and those on the way to it. -/
  | makeDirectories (path : String) (next : Except FileError Unit → Step α)

namespace Step

/-- Runs a step on a tree of files. -/
def onTree {α : Type} (tree : FileTree) : Step α → FileTree × α
  | done result => (tree, result)
  | read path next => onTree tree (next (tree.read path.toList))
  | browse _ next => onTree tree (next tree)
  | write path text next =>
    match tree.write path.toList text with
    | .ok tree => onTree tree (next (.ok ()))
    | .error error => onTree tree (next (.error error))
  | makeDirectories path next =>
    match tree.makeDirectories path.toList with
    | .ok tree => onTree tree (next (.ok ()))
    | .error error => onTree tree (next (.error error))

end Step

namespace Shell

/-- The source of addons. -/
def source : AddonSource AddonDirectory := AddonDirectory.source

/-- The state with another session. -/
def withSession (shell : Shell) (session : Session AddonDirectory) : Shell := { shell with session }

/-- The state with other files to find addons in. -/
def withFiles (shell : Shell) (files : FileTree) : Shell :=
  { shell with session.source.files := files }

/-- Goes on with the addons as they are now. -/
def browsing {α : Type} (shell : Shell) (next : Shell → α) : Step α :=
  .browse shell.session.source.root fun files => .done (next (shell.withFiles files))

/-- The state with other settings. -/
def withSettings (shell : Shell) (change : Settings → Settings) : Shell :=
  { shell with session.settings := change shell.session.settings }

/-! ### Commands -/

/-- Answers an expression. -/
def answer (shell : Shell) (line : String) : Output × Shell :=
  let (result, session) := shell.session.evaluate line
  let output := match result with
    | .ok value => .line (session.format value)
    | .error error => { err := error.render line }
  (output, shell.withSession session)

/-- Makes a set of addons the active one. -/
def activate (shell : Shell) (requested : NameSet) : Output × Shell :=
  let (failures, session) := shell.session.setActive source requested
  (.failures failures, shell.withSession session)

/-- Lists the addons, with a star in front of the active ones. -/
def listAddons (shell : Shell) : Output :=
  match shell.session.available source with
  | .error error => .error error.message
  | .ok available =>
    let active := shell.session.activeSet
    let title := if available.isEmpty then ["no addons in " ++ shell.session.source.root] else []
    let mark (addon : String) : String := if addon ∈ active then "* " else "  "
    .lines (title ++ ((available ∪ active).toList.map fun addon => mark addon ++ addon))

/-- Replaces the symbol table by that of a document. -/
def load (shell : Shell) (text : String) : Output × Shell :=
  match shell.session.importTable source text with
  | .ok (failures, session) => (.failures failures, shell.withSession session)
  | .error error => (.error error.message, shell)

/-- Carries out a command other than the one that ends the run. -/
def execute (shell : Shell) (command : Command) : Step (Output × Shell) :=
  let session := shell.session
  match command with
  | .help => .done (.line Command.helpText, shell)
  | .quit => .done (.none, shell)
  | .symbols => .done (.lines session.listings, shell)
  | .define name arguments expression =>
    match session.define name arguments expression with
    | .ok session => .done (.none, shell.withSession session)
    | .error error => .done (.error error.message, shell)
  | .undefine name =>
    match session.undefine? name with
    | some session => .done (.none, shell.withSession session)
    | none => .done (.error ("no variable or function named '" ++ name ++ "'"), shell)
  | .addons => shell.browsing fun shell => (shell.listAddons, shell)
  | .enable addon => shell.browsing fun shell => shell.activate (session.activeSet.insert addon)
  | .disable addon => shell.browsing fun shell => shell.activate (session.activeSet.erase addon)
  | .save path =>
    .write path session.exportTable fun
      | .ok () => .done (.none, shell)
      | .error error => .done (.fileFailure error, shell)
  | .load path =>
    .read path fun
      | .ok text => shell.browsing fun shell => shell.load text
      | .error error => .done (.error ("cannot read " ++ path ++ ": " ++ error.message), shell)
  | .precision bits => .done (.none, shell.withSettings fun s => { s with precisionBits := bits })
  | .digits count => .done (.none, shell.withSettings fun s => { s with displayPrecision := count })
  | .rounding mode => .done (.none, shell.withSettings fun s => { s with rounding := mode })

/-- Answers a line; none for the command that ends the run. -/
def interpret? (shell : Shell) (line : String) : Option (Step (Output × Shell)) :=
  if (Text.trim line.toList).isEmpty then some (.done (.none, shell))
  else match parseCommand? line with
    | none => some (.done (shell.answer line))
    | some (.error error) => some (.done (.error error.message, shell))
    | some (.ok .quit) => none
    | some (.ok command) => some (shell.execute command)

/-! ### Start and end -/

/-- Where the command line keeps its files. -/
structure Places where
  settings : String
  addons : String
  data : String

namespace Places

/-- A file or directory in a directory. -/
def inside (directory name : String) : String :=
  String.ofList (Path.join directory.toList name.toList)

/-- The places for a directory of settings and one of data, unless the options say otherwise. -/
def choose (options : Options) (config data : String) : Places where
  settings := inside (options.configDirectory.getD config) "settings.json"
  addons := options.addonsDirectory.getD (inside data "addons")
  data := data

/-- The set of addons that was active at the end of the last run. -/
def activeAddons (places : Places) : String := inside places.data "addons.json"

end Places

/-- Activates the addons of a saved set that are still there. -/
def restore (shell : Shell) (saved : Except FileError String) : Output × Shell :=
  match saved.toOption.bind fun text => (NameSet.read text).toOption with
  | none => (.none, shell)
  | some names =>
    match shell.session.restore source names with
    | .ok (failures, session) => (.failures failures, shell.withSession session)
    | .error error => (.error error.message, shell)

/-- Starts a run. -/
def start (options : Options) (places : Places) : Step (Output × Shell) :=
  .read places.settings fun text =>
    let settings := options.settings (.ofFile text.toOption)
    let addons : AddonDirectory := ⟨.empty, places.addons, settings.scriptMaxOperations, ∅⟩
    let shell : Shell := ⟨.start settings addons, !options.withoutAddons⟩
    if shell.keepsAddons then
      .read places.activeAddons fun saved => shell.browsing fun shell => shell.restore saved
    else .done (.none, shell)

/-- Deactivates the addons at the end of a run. -/
def leave (shell : Shell) : Output := .failures (shell.session.shutdown source).1

/-- The output and exit code of a run whose set of active addons cannot be kept. -/
def keepFailure (error : FileError) : Output × Nat :=
  (.errors ["Error:   × " ++ error.message, ""], 1)

/-- Ends a run, with its last output and its exit code. -/
def finish (shell : Shell) (places : Places) : Step (Output × Nat) :=
  if shell.keepsAddons then
    .makeDirectories places.data fun
      | .error error => .done (keepFailure error)
      | .ok () =>
        .write places.activeAddons shell.session.activeSet.text fun
          | .error error => .done (keepFailure error)
          | .ok () => .done (shell.leave, 0)
  else .done (shell.leave, 0)

/-! ### Whole runs -/

/-- Answers lines up to the command that ends the run. -/
def answerLines (tree : FileTree) (shell : Shell) : List String → FileTree × Output × Shell
  | [] => (tree, .none, shell)
  | line :: rest =>
    match shell.interpret? line with
    | none => (tree, .none, shell)
    | some step =>
      let (tree, output, shell) := step.onTree tree
      let (tree, later, shell) := answerLines tree shell rest
      (tree, output.andThen later, shell)

/-- The lines of an input, without their ends. -/
def inputLines (text : String) : List String :=
  let lines := Text.splitOn '\n' text.toList
  let lines := if lines.getLast? = some [] then lines.dropLast else lines
  lines.map fun line =>
    String.ofList (if line.getLast? = some '\r' then line.dropLast else line)

/-- A whole run over a tree of files: the files afterwards, the output and the exit code. -/
def runOnTree (options : Options) (places : Places) (tree : FileTree) (input : String) :
    FileTree × Output × Nat :=
  let (tree, first, shell) := (start options places).onTree tree
  let lines := match options.expression with
    | some expression => [expression]
    | none => inputLines input
  let (tree, output, shell) := answerLines tree shell lines
  let (tree, last, code) := (shell.finish places).onTree tree
  (tree, (first.andThen output).andThen last, code)

end Shell

end Reckoner
