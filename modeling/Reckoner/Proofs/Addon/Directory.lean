/-
Addons in directories, whose files stay as they are.

Loading an addon changes nothing but the scripts that are kept for unloading it, and does not depend
on them.

* `AddonDirectory.frozen` — the source of a directory, with only these scripts as its state. It
  answers like the source of all directories (`AddonDirectory.frozen_maps`), and always loads an addon
  with the same result (`AddonDirectory.frozen_fixed`).
* `AddonDirectory.kind_ne_variable` — no addon brings a variable.
* `AddonDirectory.mem_discover` — **an addon that can be loaded is found again**, if its name has no
  slash.
-/

import Reckoner.Addon.Directory
import Reckoner.Proofs.Addon.Concord
import Reckoner.Proofs.Addon.Sources
import Reckoner.Proofs.Files.Names

namespace Reckoner

namespace AddonDirectory

variable {directory : AddonDirectory} {addon : String}

/-! ### The source of one directory -/

/-- The directory with the scripts of other loaded addons. -/
def withLoaded (directory : AddonDirectory) (loaded : NameMap CompiledScript) : AddonDirectory :=
  { directory with loaded }

/-- The result with which an addon is loaded. -/
def result (directory : AddonDirectory) (addon : String) : Except AddonError Contribution :=
  (directory.load addon).1

/-- The source of a directory, with the scripts of the loaded addons as its state. -/
def frozen (directory : AddonDirectory) : AddonSource (NameMap CompiledScript) where
  discover _ := directory.discover
  load addon loaded :=
    (directory.result addon, ((directory.withLoaded loaded).load addon).2.loaded)
  unload addon loaded :=
    (((directory.withLoaded loaded).unload addon).1,
      ((directory.withLoaded loaded).unload addon).2.loaded)

theorem frozen_fixed (directory : AddonDirectory) : directory.frozen.Fixed directory.result :=
  fun _ _ => rfl

/-- **The scripts that are kept for unloading play no part in loading**, which changes nothing
else. -/
theorem load_withLoaded (loaded : NameMap CompiledScript) :
    (directory.withLoaded loaded).load addon =
      (directory.result addon,
        directory.withLoaded ((directory.withLoaded loaded).load addon).2.loaded) := by
  have same : (directory.withLoaded loaded).contribution addon = directory.contribution addon := rfl
  have unchanged : (directory.withLoaded loaded).files = directory.files := rfl
  unfold result load
  rw [same]
  cases directory.contribution addon with
  | error error => rfl
  | ok brought =>
    obtain ⟨contribution, module⟩ := brought
    cases module with
    | none => rfl
    | some module =>
      cases started : (module.runEntryPoint "load").result directory.files <;>
        simp only [unchanged, started] <;> rfl

theorem unload_withLoaded (loaded : NameMap CompiledScript) :
    ((directory.withLoaded loaded).unload addon).2 =
      directory.withLoaded ((directory.withLoaded loaded).unload addon).2.loaded := by
  unfold unload
  cases (directory.withLoaded loaded).loaded[addon]? <;> rfl

/-- **The source of a directory answers like the source of all directories.** -/
theorem frozen_maps (directory : AddonDirectory) :
    directory.frozen.Maps AddonDirectory.source directory.withLoaded where
  discover _ := rfl
  load _ loaded := load_withLoaded loaded
  unload _ loaded := Prod.ext rfl (unload_withLoaded loaded)

/-! ### What addons bring -/

/-- An addon that can be loaded has a contribution. -/
theorem contribution_of_result {contribution : Contribution}
    (loaded : directory.result addon = .ok contribution) :
    ∃ module, directory.contribution addon = .ok (contribution, module) := by
  unfold result load at loaded
  split at loaded
  · cases loaded
  · next found =>
    cases loaded
    exact ⟨none, found⟩
  · next module found =>
    split at loaded
    · cases loaded
    · cases loaded
      exact ⟨some module, found⟩

theorem checkName_eq_error {name : String} {error : AddonError}
    (failed : checkName addon name = .error error) :
    ∃ message, error = .manifest addon message := by
  unfold checkName at failed
  split at failed
  · next fault found =>
    cases failed
    exact ⟨_, rfl⟩
  · cases failed

section Entries

variable {ε α : Type} {name : String} {content : Except ε α} {describe : ε → String}
  {symbol : α → Symbol}

/-- An entry is accepted for a valid name and content. -/
theorem symbolOf_eq_ok {made : String × Symbol} :
    symbolOf addon name content describe symbol = .ok made ↔
      checkName addon name = .ok () ∧ ∃ value, content = .ok value ∧ made = (name, symbol value) := by
  unfold symbolOf
  simp only [bind_eq_ok, mapError_eq_ok, pure, Except.pure, Except.ok.injEq]
  constructor
  · rintro ⟨⟨⟩, checked, value, read, rfl⟩
    exact ⟨checked, value, read, rfl⟩
  · rintro ⟨checked, value, read, rfl⟩
    exact ⟨(), checked, value, read, rfl⟩

/-- An entry is refused for its manifest. -/
theorem symbolOf_eq_error {error : AddonError}
    (failed : symbolOf addon name content describe symbol = .error error) :
    ∃ message, error = .manifest addon message := by
  rcases bind_eq_error.mp failed with unnamed | ⟨_, -, rest⟩
  · exact checkName_eq_error unnamed
  · rcases bind_eq_error.mp rest with invalid | ⟨_, -, ⟨⟩⟩
    obtain ⟨cause, rfl⟩ := mapError_eq_error invalid
    exact ⟨_, rfl⟩

end Entries

/-- **No addon brings a variable.** -/
theorem kind_ne_variable (directory : AddonDirectory) (addon : String) :
    ∀ entry ∈ (offerOf directory.result addon).entries, entry.2.kind ≠ .variable := by
  intro entry brings
  obtain ⟨contribution, loaded, brought⟩ := exists_of_mem_offerOf brings
  obtain ⟨module, made⟩ := contribution_of_result loaded
  unfold AddonDirectory.contribution at made
  simp only [bind_eq_ok] at made
  obtain ⟨manifest, -, constants, constantsMade, functions, functionsMade, _, -, scripts, -, ⟨⟩⟩ := made
  rcases List.mem_append.mp brought with symbol | script
  · rcases List.mem_append.mp symbol with isConstant | isFunction
    · obtain ⟨_, -, described⟩ := exists_of_mem_mapM constantsMade isConstant
      obtain ⟨-, value, -, rfl⟩ := symbolOf_eq_ok.mp described
      nofun
    · obtain ⟨_, -, described⟩ := exists_of_mem_mapM functionsMade isFunction
      obtain ⟨-, f, -, rfl⟩ := symbolOf_eq_ok.mp described
      nofun
  · obtain ⟨script, -, rfl⟩ := List.mem_map.mp script
    nofun

/-! ### What is found -/

/-- An addon with a manifest is named by a single name, and its manifest is a file. -/
theorem isFile_of_manifest {manifest : Manifest} (described : directory.manifest addon = .ok manifest) :
    Path.isName addon.toList ∧ directory.files.isFile (directory.manifestPath addon) := by
  unfold AddonDirectory.manifest at described
  simp only at described
  split at described
  · cases described
  · next accepted => simpa using accepted

/-- An addon that has a manifest under a name without a slash is found. -/
theorem exists_discover {manifest : Manifest} (described : directory.manifest addon = .ok manifest)
    (plain : '/' ∉ addon.toList) (rooted : directory.root ≠ "") :
    ∃ available, directory.discover = .ok available ∧ addon ∈ available := by
  obtain ⟨single, isFile⟩ := isFile_of_manifest described
  obtain ⟨names, listed, member⟩ := FileTree.mem_names_of_isFile (by simpa using rooted) single plain
    (by decide) (by decide) isFile
  rw [String.ofList_toList] at member
  unfold discover
  rw [listed]
  exact ⟨_, rfl, NameSet.mem_filter.mpr ⟨member, isFile⟩⟩

/-- **An addon that can be loaded is found again**, if its name has no slash. -/
theorem mem_discover {contribution : Contribution} {available : NameSet}
    (loaded : directory.result addon = .ok contribution) (named : directory.root ≠ "")
    (plain : '/' ∉ addon.toList) (discovered : directory.discover = .ok available) :
    addon ∈ available := by
  obtain ⟨module, made⟩ := contribution_of_result loaded
  unfold AddonDirectory.contribution at made
  obtain ⟨manifest, described, -⟩ := bind_eq_ok.mp made
  obtain ⟨found, same, member⟩ := exists_discover described plain named
  rw [same] at discovered
  cases discovered
  exact member

end AddonDirectory

end Reckoner
