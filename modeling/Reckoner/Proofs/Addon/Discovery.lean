/-
Addons that can be loaded, and those that are found.

An addon is found under the name of its directory. Any path that is a single name is accepted for
loading, and slashes and dots behind a name do not change where it leads.

* `AddonDirectory.manifest_eq_ok` — a manifest is the file that a single name leads to.
* `AddonDirectory.load_found` — **an addon that can be loaded is found under the name of its
  directory**, which is the only one that is found of all the paths to it.
* `AddonDirectory.load_not_found` — a directory that is loaded, and active, under two paths.
-/

import Reckoner.Addon.Workspace
import Reckoner.Proofs.Addon.Directory
import Reckoner.Proofs.Files.Spellings
import Reckoner.Script.Module

namespace Reckoner

namespace FileTree

theorem isFile_iff {tree : FileTree} {path : List Char} :
    tree.isFile path ↔ ∃ text, tree.read path = .ok text := by
  unfold isFile
  split
  · next text found => exact iff_of_true rfl ⟨text, found⟩
  · next error failed => exact iff_of_false nofun fun ⟨text, found⟩ => by simp [failed] at found

end FileTree

namespace AddonDirectory

variable {directory : AddonDirectory} {addon : String}

/-- A manifest is the file that a single name leads to. -/
theorem manifest_eq_ok {manifest : Manifest} :
    directory.manifest addon = .ok manifest ↔ Path.isName addon.toList ∧
      ∃ text, directory.files.read (directory.manifestPath addon) = .ok text ∧
        Manifest.read text = .ok manifest := by
  constructor
  · intro described
    obtain ⟨single, isFile⟩ := isFile_of_manifest described
    unfold AddonDirectory.manifest at described
    simp only [single, isFile, Bool.not_true, Bool.or_self] at described
    obtain ⟨text, found, read⟩ := bind_eq_ok.mp described
    exact ⟨single, text, mapError_eq_ok.mp found, mapError_eq_ok.mp read⟩
  · rintro ⟨single, text, found, read⟩
    unfold AddonDirectory.manifest
    simp only [single, FileTree.isFile_iff.mpr ⟨text, found⟩, Bool.not_true, Bool.or_self]
    exact bind_eq_ok.mpr ⟨text, mapError_eq_ok.mpr found, mapError_eq_ok.mpr read⟩

/-- Slashes and dots behind a name lead to the same manifest. -/
theorem manifest_of_slack {manifest : Manifest} {name tail : List Char}
    (described : directory.manifest addon = .ok manifest) (spelled : addon.toList = name ++ tail)
    (slack : Path.Slack tail) (single : Path.isName name) (plain : '/' ∉ name)
    (rooted : directory.root ≠ "") : directory.manifest (String.ofList name) = .ok manifest := by
  obtain ⟨-, text, found, read⟩ := manifest_eq_ok.mp described
  refine manifest_eq_ok.mpr ⟨by rwa [String.toList_ofList], text, ?_, read⟩
  rw [← found, manifestPath, manifestPath, AddonDirectory.directory, AddonDirectory.directory,
    spelled, String.toList_ofList]
  exact (FileTree.read_join_slack (by simpa using rooted) single plain slack (by decide)).symm

/-- Names with a slash are not found. -/
theorem not_mem_of_discover {available : NameSet} (discovered : directory.discover = .ok available)
    (plain : directory.files.PlainNames) (member : addon ∈ available) : '/' ∉ addon.toList := by
  unfold discover at discovered
  split at discovered
  · next names listed =>
    cases discovered
    exact plain.not_mem listed (NameSet.mem_filter.mp member).1
  · cases discovered
    exact absurd member Std.ExtTreeSet.not_mem_empty
  · cases discovered

/-- **An addon that can be loaded is found under the name of its directory**, with the same manifest.
It was loaded under that name or with slashes and dots behind it, under which it is not found; of all
the paths with the parts of the one it was loaded under, the name alone is found. -/
theorem load_found {contribution : Contribution}
    (loaded : (directory.load addon).1 = .ok contribution) (rooted : directory.root ≠ "")
    (plain : directory.files.PlainNames) :
    ∃ available name tail manifest, directory.discover = .ok available ∧
      addon.toList = name ++ tail ∧ Path.Slack tail ∧ String.ofList name ∈ available ∧
      directory.manifest addon = .ok manifest ∧
      directory.manifest (String.ofList name) = .ok manifest ∧
      (addon ∈ available ↔ tail = []) ∧
      ∀ other ∈ available, Path.parts other.toList = Path.parts addon.toList →
        other = String.ofList name := by
  obtain ⟨module, made⟩ := contribution_of_result loaded
  unfold AddonDirectory.contribution at made
  obtain ⟨manifest, described, -⟩ := bind_eq_ok.mp made
  obtain ⟨name, tail, spelled, slack, absent, single, parts⟩ :=
    Path.exists_of_isName (isFile_of_manifest described).1
  have named := manifest_of_slack described spelled slack single absent rooted
  obtain ⟨available, discovered, member⟩ :=
    exists_discover named (by rwa [String.toList_ofList]) rooted
  refine ⟨available, name, tail, manifest, discovered, spelled, slack, member, described, named,
    ⟨fun among => ?_, ?_⟩, fun other among equal => ?_⟩
  · have alone := not_mem_of_discover discovered plain among
    rw [spelled] at alone
    rcases slack with none | ⟨rest, rfl, -⟩
    · exact none
    · exact absurd (List.mem_append_right _ List.mem_cons_self) alone
  · rintro rfl
    rw [List.append_nil] at spelled
    rwa [← spelled, String.ofList_toList] at member
  · have alone := not_mem_of_discover discovered plain among
    rw [parts] at equal
    obtain ⟨-, -, inner⟩ := Path.lead_eq_nil equal
    have whole := Path.innerParts_of_isName (by rw [Path.isName, equal]) alone
    rw [inner] at whole
    cases whole
    exact String.ofList_toList.symm

/-- A directory of an addon that brings nothing. -/
def bare : AddonDirectory where
  files := .ofTexts [("addons/a/addon.json", "\x7b\x7d")]
  root := "addons"
  budget := 0
  loaded := ∅

theorem load_found_slack :
    ∃ available name tail, bare.discover = .ok available ∧ "a/.//.".toList = name ++ tail ∧
      String.ofList name ∈ available ∧ "a/.//." ∉ available := by
  have loads : (bare.load "a/.//.").1.toOption.isSome := by decide +kernel
  obtain ⟨contribution, found⟩ := Option.isSome_iff_exists.mp loads
  obtain ⟨available, name, tail, manifest, discovered, spelled, slack, member, described, named,
    whether, -⟩ := load_found (toOption_eq_some.mp found) (by decide) (FileTree.plainNames_ofTexts _)
  refine ⟨available, name, tail, discovered, spelled, member, fun among => ?_⟩
  rw [whether.mp among, List.append_nil] at spelled
  have absent := not_mem_of_discover discovered (FileTree.plainNames_ofTexts _) among
  exact absent (by decide)

/-- **A directory that is loaded under a path that is not found**, and is active twice. -/
theorem load_not_found :
    (∃ contribution, (bare.load "a/").1 = .ok contribution) ∧
      (∃ available, bare.discover = .ok available ∧ available.toList = ["a"]) ∧
      ((Workspace.initial bare).setActive AddonDirectory.source
        (.ofList ["a", "a/"] compare)).1 = [] ∧
      ((Workspace.initial bare).setActive AddonDirectory.source
        (.ofList ["a", "a/"] compare)).2.activeSet.toList = ["a", "a/"] := by
  have loads : (bare.load "a/").1.toOption.isSome := by decide +kernel
  have found : bare.discover.toOption.map (·.toList) = some ["a"] := by decide +kernel
  obtain ⟨contribution, loaded⟩ := Option.isSome_iff_exists.mp loads
  obtain ⟨available, discovered, listed⟩ := Option.map_eq_some_iff.mp found
  exact ⟨⟨contribution, toOption_eq_some.mp loaded⟩,
    ⟨available, toOption_eq_some.mp discovered, listed⟩, by decide +kernel, by decide +kernel⟩

end AddonDirectory

end Reckoner
