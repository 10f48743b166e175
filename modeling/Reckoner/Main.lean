/-
The command line as a program.

Reads the arguments and the lines of the input, and does with the files of the machine what a step
asks for. Everything that is answered is decided by `Shell`.

* `perform` — carries out a step.
* `main` — a run of the program.
-/

import Reckoner.CommandLine.Shell

namespace Reckoner.CommandLine

/-! ### Files of the machine -/

/-- The reason in an error of the operating system. -/
def fileError : IO.Error → FileError
  | .noFileOrDirectory _ _ _ => .missing
  | .inappropriateType _ 20 _ => .notDirectory
  | .inappropriateType _ 21 _ => .isDirectory
  | .alreadyExists _ 17 _ => .exists
  | error => .other (toString error)

/-- The result of an action on files. -/
def attempt {α : Type} (action : IO α) : IO (Except FileError α) := do
  match ← action.toBaseIO with
  | .ok result => pure (.ok result)
  | .error error => pure (.error (fileError error))

/-- Reads a file whose text has to be well-formed. -/
def readText (path : String) : IO (Except FileError String) := do
  match ← attempt (IO.FS.readBinFile path) with
  | .error error => pure (.error error)
  | .ok bytes =>
    match String.fromUTF8? bytes with
    | some text => pure (.ok text)
    | none => pure (.error (.other "stream did not contain valid UTF-8"))

/-- Everything below a directory, at most `depth` directories deep. Files without a well-formed text
are left out. -/
def readBelow (depth : Nat) (trail : Trail) (path : String) : IO (List (Trail × FileNode)) := do
  match depth with
  | 0 => pure []
  | depth + 1 =>
    let entries ← (System.mkFilePath [path]).readDir
    let nodes ← entries.toList.mapM fun entry => do
      let trail := trail ++ [entry.fileName.toList]
      if ← entry.path.isDir then
        let below ← readBelow depth trail (toString entry.path)
        pure ((trail, .directory) :: below)
      else
        match ← readText (toString entry.path) with
        | .ok text => pure [(trail, .file text)]
        | .error _ => pure []
    pure nodes.flatten

/-- A tree of a directory of addons. A file in its place is a file in the tree. -/
def browse (path : String) : IO FileTree := do
  match ← attempt (readBelow 40 [] path) with
  | .ok below => pure (.ofDirectory path.toList below)
  | .error .notDirectory => pure (.ofTexts [(path, "")])
  | .error _ => pure .empty

/-- Carries out a step. -/
def perform {α : Type} : Step α → IO α
  | .done result => pure result
  | .read path next => do perform (next (← readText path))
  | .browse path next => do perform (next (← browse path))
  | .write path text next => do perform (next (← attempt (IO.FS.writeFile path text)))
  | .makeDirectories path next => do perform (next (← attempt (IO.FS.createDirAll path)))

/-! ### Runs -/

/-- Prints an output. -/
def print (output : Output) : IO Unit := do
  IO.print output.out
  IO.eprint output.err

/-- A directory that the environment names, or one below the home directory. -/
def baseDirectory (key below : String) : IO String := do
  let named := (← IO.getEnv key).filter (·.startsWith "/")
  let inHome := (← IO.getEnv "HOME").map (Shell.Places.inside · below)
  pure ((named.or inHome).getD ".")

/-- The places of the program, whose own directories have the name of the program. -/
def places (options : Options) : IO Shell.Places := do
  let name := ((← IO.appPath).fileStem).getD "reckoner"
  let config ← baseDirectory "XDG_CONFIG_HOME" ".config"
  let data ← baseDirectory "XDG_DATA_HOME" ".local/share"
  pure (.choose options (Shell.Places.inside config name) (Shell.Places.inside data name))

/-- Answers a line; none if it ends the run. -/
def answer? (shell : Shell) (line : String) : IO (Option Shell) := do
  match shell.interpret? line with
  | none => pure none
  | some step =>
    let (output, shell) ← perform step
    print output
    pure (some shell)

/-- Answers the lines of the input. -/
partial def answerInput (input : IO.FS.Stream) (shell : Shell) : IO Shell := do
  match (← attempt input.getLine).map Shell.inputLines with
  | .error error =>
    IO.eprintln ("Error reading line from stdin: " ++ error.message)
    pure shell
  | .ok [] => pure shell
  | .ok (line :: _) =>
    match ← answer? shell line with
    | some shell => answerInput input shell
    | none => pure shell

/-- A run with some options, and its exit code. -/
def run (options : Options) : IO UInt32 := do
  let places ← places options
  let (output, shell) ← perform (Shell.start options places)
  print output
  let shell ← match options.expression with
    | some expression => pure ((← answer? shell expression).getD shell)
    | none => answerInput (← IO.getStdin) shell
  let (output, code) ← perform (shell.finish places)
  print output
  pure code.toUInt32

end Reckoner.CommandLine

/-- The program. -/
def main (arguments : List String) : IO UInt32 :=
  match Reckoner.Options.ofArguments arguments with
  | .ok options => Reckoner.CommandLine.run options
  | .error message => do
    IO.eprintln ("error: " ++ message)
    pure 2
