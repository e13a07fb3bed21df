import ArchipelagoXL.Lib.Paths
import ArchipelagoXL.Lib.SemVersion

/-!
# The files of releases

The copies of the releases of an index lie in one folder (`apwm/src/index/mod.rs`, `apwm/src/changes.rs`): the file of a
release is called like its apworld and its version, with a dash between them. Both may have dashes, so the file of one
release is that of another one just if the name of the one apworld goes on where the version of the other starts
(`local_paths_differ_iff`).
-/

namespace ArchipelagoXL.Apwm

open Paths SemVersion

/-- Rust `get_world_local_path`. -/
def getWorldLocalPath (apworldRoot apworldName : String) (version : Version) : String :=
  join apworldRoot (apworldName ++ "-" ++ toString version ++ ".apworld")

/-- A name starts with another one and the part of its version that stands before a second version: the name's own. -/
def Swallows (longName : String) (longVersion : Version) (name : String) (version : Version) : Prop :=
  ∃ start, version.EndsIn start longVersion ∧ longName.toList = name.toList ++ '-' :: start

section
variable {name name' : String} {version version' : Version}

lemma toList_fileName (name : String) (version : Version) :
    (name ++ "-" ++ toString version ++ ".apworld").toList =
      name.toList ++ '-' :: version.text ++ ".apworld".toList := by
  have text : (toString version).toList = version.text := String.toList_ofList
  rw [String.toList_append, String.toList_append, String.toList_append, text]
  simp

/-- The file of a release has a name that fits in a folder. -/
lemma isName_fileName (isStem : '/' ∉ name.toList) (version : Version) :
    IsName (name ++ "-" ++ toString version ++ ".apworld") := by
  refine ⟨?_, ?_, ?_, ?_⟩
  · rw [toList_fileName, List.mem_append, List.mem_append, List.mem_cons, not_or, not_or, not_or]
    exact ⟨⟨isStem, by decide, version.slash_notMem_text⟩, by decide⟩
  · rw [toList_fileName]
    simp
  · rw [toList_fileName]
    intro same
    have length := congrArg List.length same
    simp at length
    omega
  · rw [toList_fileName]
    intro same
    have length := congrArg List.length same
    simp at length
    omega

/-- Two releases have files of one name just if they are the same or one name swallows a part of the other's
version. -/
lemma fileName_eq_iff :
    name ++ "-" ++ toString version ++ ".apworld" = name' ++ "-" ++ toString version' ++ ".apworld" ↔
    (name, version) = (name', version') ∨
        Swallows name' version' name version ∨ Swallows name version name' version' := by
  rw [← String.toList_inj, toList_fileName, toList_fileName, List.append_left_inj]
  constructor
  · intro same
    rcases List.append_eq_append_iff.mp same with ⟨more, whole, rest⟩ | ⟨more, whole, rest⟩
    · cases more with
      | nil =>
        rw [List.append_nil] at whole
        left
        rw [String.toList_inj.mp whole.symm, Version.text_injective (List.cons.inj rest).2]
      | cons c start =>
        obtain ⟨rfl, text⟩ := List.cons.inj rest
        right; left
        exact ⟨start, Version.endsIn_iff.mpr text, whole⟩
    · cases more with
      | nil =>
        rw [List.append_nil] at whole
        left
        rw [String.toList_inj.mp whole, Version.text_injective (List.cons.inj rest).2.symm]
      | cons c start =>
        obtain ⟨rfl, text⟩ := List.cons.inj rest
        right; right
        exact ⟨start, Version.endsIn_iff.mpr text, whole⟩
  · rintro (same | ⟨start, ends, whole⟩ | ⟨start, ends, whole⟩)
    · obtain ⟨rfl, rfl⟩ := Prod.mk.inj same
      rfl
    · rw [whole, Version.endsIn_iff.mp ends]
      simp
    · rw [whole, Version.endsIn_iff.mp ends]
      simp

/-- Two releases have a file each exactly if neither name is the other one with the start of its version behind a dash,
where the version goes on with a dash and the version of the release with the longer name. -/
theorem local_paths_differ_iff (apworldRoot : String) (isStem : '/' ∉ name.toList) (isStem' : '/' ∉ name'.toList)
    (different : (name, version) ≠ (name', version')) :
    components (getWorldLocalPath apworldRoot name version) ≠
        components (getWorldLocalPath apworldRoot name' version') ↔
      ¬ Swallows name' version' name version ∧ ¬ Swallows name version name' version' := by
  have same : components (getWorldLocalPath apworldRoot name version) =
      components (getWorldLocalPath apworldRoot name' version') ↔
      name ++ "-" ++ toString version ++ ".apworld" = name' ++ "-" ++ toString version' ++ ".apworld" := by
    constructor
    · exact fun same => join_injective (isName_fileName isStem version) (isName_fileName isStem' version') same
    · intro same
      rw [getWorldLocalPath, same, getWorldLocalPath]
  rw [Ne, same, fileName_eq_iff, not_or, not_or]
  exact ⟨fun apart => apart.2, fun apart => ⟨different, apart⟩⟩

end

/-- Version 2.0.0. -/
def second : Version := ⟨2, 0, 0, [], [], by simp, by simp⟩

/-- Version 1.0.0-2.0.0, with a pre-release that looks like a version. -/
def looksLikeTwo : Version where
  major := 1
  minor := 0
  patch := 0
  pre := [['2'], ['0'], ['0']]
  build := []
  isPre := by
    have digit (c : Char) (is : isIdentifierChar c = true) : IsIdentifier [c] := ⟨List.cons_ne_nil c [], by simp [is]⟩
    intro i known
    simp only [List.mem_cons, List.not_mem_nil, or_false, or_self] at known
    rcases known with rfl | rfl
    · exact ⟨digit '2' (by decide), fun _ zero => absurd zero (by decide)⟩
    · exact ⟨digit '0' (by decide), fun _ _ => rfl⟩
  isBuild := by simp

lemma looksLikeTwo_text : looksLikeTwo.text = "1.0.0-2.0.0".toList := by decide

lemma second_text : second.text = "2.0.0".toList := by decide

/-- Two releases of one apworld have a file each: no name is longer than the other. -/
theorem two_releases_differ : components (getWorldLocalPath "apworlds" "clique" second) ≠
    components (getWorldLocalPath "apworlds" "clique" looksLikeTwo) := by
  have notLonger (version version' : Version) : ¬ Swallows "clique" version "clique" version' := by
    rintro ⟨start, _, whole⟩
    have length := congrArg List.length whole
    simp at length
  have different : ("clique", second) ≠ ("clique", looksLikeTwo) := by
    intro same
    have major := congrArg Version.major (Prod.mk.inj same).2
    cases major
  exact (local_paths_differ_iff "apworlds" (by decide) (by decide) different).mpr ⟨notLonger _ _, notLonger _ _⟩

/-- The release 1.0.0-2.0.0 of one apworld and the release 2.0.0 of another have the same file. -/
theorem same_file : ("clique", looksLikeTwo) ≠ ("clique-1.0.0", second) ∧
    getWorldLocalPath "apworlds" "clique" looksLikeTwo = getWorldLocalPath "apworlds" "clique-1.0.0" second := by
  constructor
  · intro same
    exact absurd (Prod.mk.inj same).1 (by decide)
  · have name : "clique" ++ "-" ++ toString looksLikeTwo ++ ".apworld" =
        "clique-1.0.0" ++ "-" ++ toString second ++ ".apworld" := by
      rw [← String.toList_inj, toList_fileName, toList_fileName, looksLikeTwo_text, second_text]
      rfl
    rw [getWorldLocalPath, name, getWorldLocalPath]

end ArchipelagoXL.Apwm
