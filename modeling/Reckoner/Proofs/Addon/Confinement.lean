/-
Which files are read when an addon is loaded.

Loading is said once more as a computation that does not have the files and asks for them, one path
after the other. It gives the same result, so what it asks for is what loading reads. At its end it
starts the script of the addon, which may ask for any file.

* `AddonDirectory.loading` — loading an addon of a directory with a given engine and root.
  `AddonDirectory.load_eq` — **it is loading, with the files of the directory as answers**.
* `AddonDirectory.mem_asked_contributionOf` — the manifest and the script are all that it asks for
  before it starts the script.
* `AddonDirectory.load_confined` — **all files that are read before that lie below the one directory
  that the addon names**. Names and scripts that may lead out of it are refused.
* `AddonDirectory.load_strays` — a script that imports another one may read what lies elsewhere.
-/

import Reckoner.Proofs.Addon.Discovery
import Reckoner.Proofs.Files.Inquiry
import Reckoner.Proofs.Files.Lexical
import Reckoner.Script.Module

namespace Reckoner

namespace AddonDirectory

/-! ### Loading as a computation that asks for files -/

section Loading

variable (engine : ScriptEngine) (root : String) (budget : Nat) (addon : String)

/-- The path of a file in the directory of an addon. -/
def pathIn (path : String) : List Char := Path.join (Path.join root.toList addon.toList) path.toList

/-- The text that answers for a path. -/
def textOf (path : List Char) (answer : Except FileError String) : Except AddonError String :=
  answer.mapError (.unreadable (String.ofList path))

/-- The manifest of an addon. Whether it is a file is asked before it is read. -/
def manifestOf : Inquiry AddonError Manifest :=
  if !Path.isName addon.toList then .done (.error (.notFound addon))
  else .ask (pathIn root addon manifestFile) fun
    | .error _ => .done (.error (.notFound addon))
    | .ok _ => .ask (pathIn root addon manifestFile) fun answer => .done do
      (Manifest.read (← textOf (pathIn root addon manifestFile) answer)).mapError fun fault =>
        .manifest addon fault.category

/-- The script of a file, which is asked for only if its path stays inside the directory of the
addon. -/
def moduleOf (path : String) : Inquiry AddonError CompiledScript :=
  if !Path.staysBelow path.toList then
    .done (.error (.manifest addon s!"script path {path} must stay inside the addon directory"))
  else .ask (pathIn root addon path) fun answer => .done do
    (engine.compile (← textOf (pathIn root addon path) answer) budget).mapError
      (.script addon)

/-- The script that a manifest names, if it does. -/
def scriptOf : Option String → Inquiry AddonError (Option CompiledScript)
  | none => pure none
  | some path => moduleOf engine root budget addon path >>= fun module => pure (some module)

/-- What an addon brings, and its script. -/
def contributionOf : Inquiry AddonError (Contribution × Option CompiledScript) := do
  let manifest ← manifestOf root addon
  let constants ← .done (manifest.constants.toList.mapM fun (name, text) =>
    constant addon name text)
  let functions ← .done (manifest.functions.toList.mapM fun (name, entry) =>
    function addon name entry)
  let module ← scriptOf engine root budget addon manifest.script
  let scripts ← .done (manifest.scripts.toList.mapM fun (name, entry) =>
    script addon module name entry)
  pure (⟨constants ++ functions, scripts⟩, module)

/-- The scripts that are kept for unloading once an addon has started. -/
def start (loaded : NameMap CompiledScript) :
    Option CompiledScript → Inquiry AddonError (NameMap CompiledScript)
  | none => pure loaded
  | some module => (module.runEntryPoint "load").mapError (.script addon) >>= fun _ =>
    pure (loaded.insert addon module)

/-- Loading an addon, with the scripts that are kept before and afterwards. -/
def loading (loaded : NameMap CompiledScript) :
    Inquiry AddonError (Contribution × NameMap CompiledScript) :=
  contributionOf engine root budget addon >>= fun brought =>
    start addon loaded brought.2 >>= fun kept => pure (brought.1, kept)

end Loading

/-- A directory after loading, with the result that is reported. A failure changes nothing. -/
def settle (source : AddonDirectory) :
    Except AddonError (Contribution × NameMap CompiledScript) →
      Except AddonError Contribution × AddonDirectory
  | .error error => (.error error, source)
  | .ok (contribution, loaded) => (.ok contribution, { source with loaded })

theorem settle_result (source : AddonDirectory)
    (result : Except AddonError (Contribution × NameMap CompiledScript)) :
    (source.settle result).1 = result.map Prod.fst := by
  cases result <;> rfl

section Answers

variable (source : AddonDirectory) (addon : String)

theorem result_manifestOf :
    (manifestOf source.root addon).result source.files = source.manifest addon := by
  have path : pathIn source.root addon manifestFile = source.manifestPath addon := rfl
  unfold manifestOf AddonDirectory.manifest
  by_cases single : Path.isName addon.toList
  · simp only [single, Bool.not_true, Bool.false_or, Bool.false_eq_true, if_false, path,
      Inquiry.result, FileTree.isFile]
    cases found : source.files.read (source.manifestPath addon) with
    | error error => rfl
    | ok text =>
      simp only [Inquiry.result, textOf, readFile, found]
      rfl
  · simp only [single, Bool.not_false, Bool.true_or, if_true]
    rfl

theorem result_moduleOf (path : String) :
    (moduleOf source.engine source.root source.budget addon path).result source.files =
      source.compile addon path := by
  unfold moduleOf compile
  by_cases below : Path.staysBelow path.toList
  · simp only [below, Bool.not_true, Bool.false_eq_true, if_false]
    rfl
  · simp only [below, Bool.not_false, if_true]
    rfl

theorem result_scriptOf (path : Option String) :
    (scriptOf source.engine source.root source.budget addon path).result source.files =
      path.mapM (source.compile addon) := by
  cases path with
  | none => rfl
  | some path =>
    rw [scriptOf, Inquiry.result_bind, result_moduleOf, Option.mapM_some, map_eq_pure_bind]
    rfl

theorem result_contributionOf :
    (contributionOf source.engine source.root source.budget addon).result source.files =
      source.contribution addon := by
  unfold contributionOf contribution
  simp only [Inquiry.result_bind, result_manifestOf, result_scriptOf]
  rfl

/-- Loading an addon of a directory, as a computation that asks for its files. -/
def inquiry (source : AddonDirectory) (addon : String) :
    Inquiry AddonError (Contribution × NameMap CompiledScript) :=
  loading source.engine source.root source.budget addon source.loaded

/-- **Loading is the computation that asks for files**, with the files of the directory as
answers. -/
theorem load_eq :
    source.load addon = source.settle ((source.inquiry addon).result source.files) := by
  unfold inquiry loading load
  rw [Inquiry.result_bind, result_contributionOf]
  cases source.contribution addon with
  | error error => rfl
  | ok brought =>
    obtain ⟨contribution, module⟩ := brought
    show _ = source.settle (Inquiry.result _ (start addon source.loaded module >>= _))
    cases module with
    | none => rfl
    | some module =>
      simp only [start, Inquiry.result_bind, Inquiry.result_mapError]
      cases (module.runEntryPoint "load").result source.files with
      | error message => rfl
      | ok done => rfl

/-- The files that the script of an addon asks for when it starts. -/
def askedByScript (source : AddonDirectory) (addon : String) : List (List Char) :=
  match source.contribution addon with
  | .ok (_, some module) => (module.runEntryPoint "load").asked source.files
  | _ => []

/-- What loading asks for: what it needs to know the addon, and what the script asks for then. -/
theorem asked_inquiry :
    (source.inquiry addon).asked source.files =
      (contributionOf source.engine source.root source.budget addon).asked source.files ++
        source.askedByScript addon := by
  unfold inquiry loading askedByScript
  rw [Inquiry.asked_bind, result_contributionOf]
  cases source.contribution addon with
  | error error => rfl
  | ok brought =>
    obtain ⟨contribution, module⟩ := brought
    refine congrArg _ ?_
    show (start addon source.loaded module >>= fun kept => pure (contribution, kept)).asked _ = _
    rw [Inquiry.asked_bind_pure]
    cases module with
    | none => rfl
    | some module =>
      rw [start, Inquiry.asked_bind_pure, Inquiry.asked_mapError]

end Answers

/-! ### What is asked for -/

section Asked

variable {engine : ScriptEngine} {files : FileTree} {root addon : String} {budget : Nat}
  {path : List Char}

/-- Only the manifest is asked for to know the manifest, and only for a single name. -/
theorem mem_asked_manifestOf (member : path ∈ (manifestOf root addon).asked files) :
    Path.isName addon.toList ∧ path = pathIn root addon manifestFile := by
  unfold manifestOf at member
  split at member
  · cases member
  · next accepted =>
    have single : Path.isName addon.toList := by simpa using accepted
    rcases List.mem_cons.mp member with first | later
    · exact ⟨single, first⟩
    · generalize files.read (pathIn root addon manifestFile) = answer at later
      cases answer with
      | error error => cases later
      | ok text => exact ⟨single, List.mem_singleton.mp later⟩

/-- Only the script is asked for to know its module, and only if its path is one of names. -/
theorem mem_asked_scriptOf {named : Option String}
    (member : path ∈ (scriptOf engine root budget addon named).asked files) :
    ∃ script, named = some script ∧ Path.staysBelow script.toList ∧
      path = pathIn root addon script := by
  cases named with
  | none => cases member
  | some script =>
    rcases Inquiry.mem_asked_bind.mp member with asked | ⟨_, -, ⟨⟩⟩
    unfold moduleOf at asked
    split at asked
    · cases asked
    · next accepted =>
      exact ⟨script, rfl, by simpa using accepted, List.mem_singleton.mp asked⟩

/-- **The manifest and the script that it names are all that is asked for** before the script
starts. -/
theorem mem_asked_contributionOf
    (member : path ∈ (contributionOf engine root budget addon).asked files) :
    (Path.isName addon.toList ∧ path = pathIn root addon manifestFile) ∨
      ∃ manifest script, (manifestOf root addon).result files = .ok manifest ∧
        manifest.script = some script ∧ Path.staysBelow script.toList ∧
        path = pathIn root addon script := by
  rcases Inquiry.mem_asked_bind.mp member with ofManifest | ⟨manifest, read, contribution⟩
  · exact .inl (mem_asked_manifestOf ofManifest)
  rcases Inquiry.mem_asked_bind.mp contribution with ⟨⟨⟩⟩ | ⟨_, -, contribution⟩
  rcases Inquiry.mem_asked_bind.mp contribution with ⟨⟨⟩⟩ | ⟨_, -, contribution⟩
  rcases Inquiry.mem_asked_bind.mp contribution with ofScript | ⟨_, -, contribution⟩
  · obtain ⟨script, named, below, same⟩ := mem_asked_scriptOf ofScript
    exact .inr ⟨manifest, script, read, named, below, same⟩
  · rcases Inquiry.mem_asked_bind.mp contribution with ⟨⟨⟩⟩ | ⟨_, -, ⟨⟩⟩

end Asked

/-- A manifest is known of single names only. -/
theorem isName_of_manifest {source : AddonDirectory} {addon : String} {manifest : Manifest}
    (described : source.manifest addon = .ok manifest) : Path.isName addon.toList :=
  (isFile_of_manifest described).1

/-! ### What is refused -/

section Refused

variable {source : AddonDirectory} {addon : String}

/-- A script whose path strays is refused. -/
theorem compile_of_strays {script : String} (strays : Path.Strays script.toList) :
    source.compile addon script = .error
      (.manifest addon s!"script path {script} must stay inside the addon directory") := by
  have leaves : Path.staysBelow script.toList = false :=
    Bool.eq_false_iff.mpr fun below => Path.staysBelow_iff.mp below strays
  unfold compile
  simp only [leaves, Bool.not_false, if_true]
  rfl

/-- An addon that fails to contribute fails to load, and nothing changes. -/
theorem load_of_contribution {error : AddonError}
    (failed : source.contribution addon = .error error) :
    source.load addon = (.error error, source) := by
  unfold load
  rw [failed]

/-- **An addon whose path strays is not found.** -/
theorem load_of_strays (strays : Path.Strays addon.toList) :
    source.load addon = (.error (.notFound addon), source) ∧ manifestOf source.root addon =
      .done (.error (.notFound addon)) := by
  have several : Path.isName addon.toList = false := Bool.eq_false_iff.mpr fun single =>
    Path.staysBelow_iff.mp (Path.staysBelow_of_isName single) strays
  have unasked : manifestOf source.root addon = .done (.error (.notFound addon)) := by
    unfold manifestOf
    simp only [several, Bool.not_false, if_true]
  refine ⟨load_of_contribution (bind_eq_error.mpr (.inl ?_)), unasked⟩
  rw [← result_manifestOf, unasked]
  rfl

/-- **An addon whose script strays has an invalid manifest.** -/
theorem contribution_of_script_strays {manifest : Manifest} {script : String}
    (described : source.manifest addon = .ok manifest) (named : manifest.script = some script)
    (strays : Path.Strays script.toList) :
    ∃ message, source.contribution addon = .error (.manifest addon message) := by
  have refused : manifest.script.mapM (source.compile addon) = .error
      (.manifest addon s!"script path {script} must stay inside the addon directory") := by
    rw [named, Option.mapM_some, compile_of_strays strays]
    rfl
  unfold contribution
  simp only [bind_eq_error, described]
  -- Constants and functions come first, and are refused for the manifest too.
  cases constants : manifest.constants.toList.mapM fun (name, text) => constant addon name text with
  | error error =>
    obtain ⟨entry, -, failed⟩ := exists_of_mapM_eq_error constants
    obtain ⟨message, rfl⟩ := symbolOf_eq_error failed
    exact ⟨message, .inr ⟨manifest, rfl, .inl constants⟩⟩
  | ok values =>
    cases functions : manifest.functions.toList.mapM fun (name, entry) =>
        function addon name entry with
    | error error =>
      obtain ⟨entry, -, failed⟩ := exists_of_mapM_eq_error functions
      obtain ⟨message, rfl⟩ := symbolOf_eq_error failed
      exact ⟨message, .inr ⟨manifest, rfl, .inr ⟨values, constants, .inl functions⟩⟩⟩
    | ok definitions =>
      exact ⟨_, .inr ⟨manifest, rfl, .inr ⟨values, constants, .inr ⟨definitions, functions,
        .inl refused⟩⟩⟩⟩

end Refused

/-! ### Confinement -/

/-- A file with a path of names, in the directory of an addon, lies below it. -/
theorem location_pathIn (root : String) {addon path : String} (single : Path.isName addon.toList)
    (below : Path.staysBelow path.toList) :
    ∃ name names, Path.parts addon.toList = [.name name] ∧
      (∀ piece ∈ name :: names, Path.IsPlain piece) ∧
      Path.location (pathIn root addon path) =
        (Path.location root.toList).below (name :: names) := by
  obtain ⟨name, plain, whole, down⟩ := Path.location_join_name single
  obtain ⟨names, plain', -, further⟩ := Path.location_join_below below
  refine ⟨name, names, whole, List.forall_mem_cons.mpr ⟨plain, plain'⟩, ?_⟩
  rw [pathIn, further, down, Path.Location.below_below]
  rfl

/-- **All files that are read for an addon before its script starts lie below the one directory that
the addon names.** They are those that the loading asks for, and no others matter; what is asked for
afterwards is what the script asks for. An addon or a script whose path is absolute, starts with a dot
or has two dots in it is refused, the addon before any file is read and the script when only its
manifest has been read. -/
theorem load_confined (source : AddonDirectory) (addon : String) :
    (source.load addon = source.settle ((source.inquiry addon).result source.files) ∧
      ∀ files : FileTree, (∀ path ∈ (source.inquiry addon).asked source.files,
        files.read path = source.files.read path) →
          (AddonDirectory.load addon { source with files }).1 = (source.load addon).1) ∧
    (∃ first, (source.inquiry addon).asked source.files = first ++ source.askedByScript addon ∧
      ∀ path ∈ first, ∃ name names, Path.parts addon.toList = [.name name] ∧
        (∀ piece ∈ name :: names, Path.IsPlain piece) ∧
        Path.location path = (Path.location source.root.toList).below (name :: names)) ∧
    (Path.Strays addon.toList → source.load addon = (.error (.notFound addon), source) ∧
      (source.inquiry addon).asked source.files = []) ∧
    ∀ manifest script, source.manifest addon = .ok manifest → manifest.script = some script →
      Path.Strays script.toList →
        (∃ message, source.load addon = (.error (.manifest addon message), source)) ∧
          ∀ path ∈ (source.inquiry addon).asked source.files, path = source.manifestPath addon := by
  refine ⟨⟨load_eq source addon, fun files same => ?_⟩,
    ⟨_, asked_inquiry source addon, fun path member => ?_⟩, fun strays => ?_,
    fun manifest script described named strays => ?_⟩
  · have other : (source.inquiry addon).result files = (source.inquiry addon).result source.files :=
      Inquiry.result_congr same
    rw [load_eq, load_eq source, settle_result, settle_result]
    exact congrArg _ other
  · rcases mem_asked_contributionOf member with ⟨single, rfl⟩ | ⟨manifest, script, read, -, below, rfl⟩
    · exact location_pathIn source.root single (by decide)
    · rw [result_manifestOf] at read
      exact location_pathIn source.root (isName_of_manifest read) below
  · obtain ⟨refused, unasked⟩ := load_of_strays strays
    refine ⟨refused, ?_⟩
    unfold inquiry loading contributionOf
    rw [unasked]
    rfl
  · obtain ⟨message, failed⟩ := contribution_of_script_strays described named strays
    refine ⟨⟨message, load_of_contribution failed⟩, fun path member => ?_⟩
    have unstarted : source.askedByScript addon = [] := by
      unfold askedByScript
      rw [failed]
    rw [asked_inquiry, unstarted, List.append_nil] at member
    rcases mem_asked_contributionOf member with ⟨-, rfl⟩ | ⟨other, script', read, named', below, -⟩
    · rfl
    · rw [result_manifestOf, described] at read
      cases read
      rw [named] at named'
      cases named'
      exact absurd strays (Path.staysBelow_iff.mp below)

/-- The files of an addon whose script lies deeper. -/
def deeper : List (String × String) :=
  [("shelf/a/addon.json", "\x7b\"script\": \"x/./main\"\x7d"),
    ("shelf/a/x/main", "fn load() \x7b 1 \x7d")]

/-- These files and another addon, which names the script of the first one as its own, below a root
that is spelled in a roundabout way. -/
def scripted : AddonDirectory where
  files := .ofTexts (deeper ++ [("shelf/b/addon.json", "\x7b\"script\": \"../a/x/main\"\x7d")])
  root := "shelf/../shelf/"
  budget := 0
  loaded := ∅

theorem load_confined_deeper :
    ((scripted.load "a/.").1.toOption.isSome ∧
      (scripted.inquiry "a/.").asked scripted.files =
        ["shelf/../shelf/a/./addon.json".toList, "shelf/../shelf/a/./addon.json".toList,
          "shelf/../shelf/a/./x/./main".toList] ∧
      (AddonDirectory.load "a/." { scripted with files := .ofTexts deeper }).1 =
        (scripted.load "a/.").1 ∧
      ∀ path ∈ (scripted.inquiry "a/.").asked scripted.files, ∃ name names,
        Path.parts "a/.".toList = [.name name] ∧
          Path.location path = (Path.location scripted.root.toList).below (name :: names)) ∧
    (Path.Strays "../shelf/a".toList ∧
      scripted.load "../shelf/a" = (.error (.notFound "../shelf/a"), scripted)) ∧
    ((scripted.manifest "b").toOption.bind Manifest.script = some "../a/x/main" ∧
      Path.Strays "../a/x/main".toList ∧
      ∃ message, scripted.load "b" = (.error (.manifest "b" message), scripted)) := by
  have asked : (scripted.inquiry "a/.").asked scripted.files =
      ["shelf/../shelf/a/./addon.json".toList, "shelf/../shelf/a/./addon.json".toList,
        "shelf/../shelf/a/./x/./main".toList] := by decide +kernel
  have alike : ∀ path ∈ (scripted.inquiry "a/.").asked scripted.files,
      (FileTree.ofTexts deeper).read path = scripted.files.read path := by
    rw [asked]
    decide +kernel
  have outside : Path.Strays "../shelf/a".toList := .inr (.inl (by decide))
  have elsewhere : Path.Strays "../a/x/main".toList := .inr (.inl (by decide))
  have named : (scripted.manifest "b").toOption.bind Manifest.script = some "../a/x/main" := by
    decide +kernel
  obtain ⟨manifest, described, script⟩ := Option.bind_eq_some_iff.mp named
  have unasked : scripted.askedByScript "a/." = [] := by decide +kernel
  obtain ⟨⟨-, same⟩, ⟨first, whole, below⟩, -⟩ := load_confined scripted "a/."
  rw [unasked, List.append_nil] at whole
  obtain ⟨-, -, refused, -⟩ := load_confined scripted "../shelf/a"
  obtain ⟨-, -, -, invalid⟩ := load_confined scripted "b"
  refine ⟨⟨by decide +kernel, asked, same _ alike, fun path member => ?_⟩,
    ⟨outside, (refused outside).1⟩, named, elsewhere,
    (invalid manifest _ (toOption_eq_some.mp described) script elsewhere).1⟩
  obtain ⟨name, names, single, -, leads⟩ := below path (whole ▸ member)
  exact ⟨name, names, single, leads⟩

/-- An addon whose script imports a program that lies next to the root. -/
def importing : AddonDirectory where
  files := .ofTexts [("addons/a/addon.json", "\x7b\"script\": \"main.rhai\"\x7d"),
    ("addons/a/main.rhai", "fn load() \x7b import \"lib\" as m; \x7d"),
    ("lib.rhai", "fn f() \x7b 1 \x7d")]
  root := "addons"
  budget := 0
  loaded := ∅

/-- **A script that starts may read what does not lie below the root**, and the addon loads. -/
theorem load_strays :
    (∃ contribution, (importing.load "a").1 = .ok contribution) ∧
      "lib.rhai".toList ∈ (importing.inquiry "a").asked importing.files ∧
      ¬∃ names, Path.location "lib.rhai".toList =
        (Path.location importing.root.toList).below names := by
  have loads : (importing.load "a").1.toOption.isSome := by decide +kernel
  obtain ⟨contribution, found⟩ := Option.isSome_iff_exists.mp loads
  refine ⟨⟨contribution, toOption_eq_some.mp found⟩, by decide +kernel, ?_⟩
  rintro ⟨names, equal⟩
  have elsewhere : (Path.location "lib.rhai".toList).way.head? ≠
      (Path.location importing.root.toList).way.head? := by decide +kernel
  rw [equal] at elsewhere
  exact elsewhere rfl

end AddonDirectory

end Reckoner
