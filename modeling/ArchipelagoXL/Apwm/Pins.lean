import ArchipelagoXL.Apwm.Refresh

/-!
# Pinned releases

The checksum of a release gets into `index.lock` when `apwm update` meets the release for the first time. The lock file
is committed with the index; a lobby loads a commit and refreshes its own folder from it. So what was downloaded first
is what every lobby gets (`pins_hold`), for as long as each update finds the release in the index: an update takes out
the checksums of all others (`update_keeps_iff`).
-/

namespace ArchipelagoXL.Apwm

variable {V : Type} [LinearOrder V] [ToString V]

/-- The index with its lock file, what was committed of them, and the folder of each lobby. -/
structure IndexRepo (V : Type) [LinearOrder V] [ToString V] where
  index : IndexSet V
  lock : IndexLock V
  commits : List (IndexSet V × IndexLock V)
  lobbies : ℕ → Folder

inductive RepoEvent (V : Type) [LinearOrder V] [ToString V] where
  | edit (index : IndexSet V)
  | update (downloads : Downloads V)
  | commit
  | load (lobby commit : ℕ) (isFile : Bool) (createDirAll : Except String Unit) (downloads : Downloads V)

/-- Rust `update` of `bin/apwm.rs`: new releases are downloaded to a folder of their own. -/
def update (sha : Bytes → String) (index : IndexSet V) (lock : IndexLock V) (downloads : Downloads V) :
    Except String (IndexLock V) :=
  (index.refreshInto sha (.ok lock) ⟨false, .ok (), fun _ => none⟩ true none downloads).map Prod.fst

/-- The folder of a lobby after it has loaded a commit (Rust `IndexManager::load`). -/
def loadFiles (sha : Bytes → String) (commit : IndexSet V × IndexLock V) (destination : Destination)
    (downloads : Downloads V) : Folder :=
  match commit.1.refreshInto sha (.ok commit.2) destination false none downloads with
  | .ok (_, files') => files'
  | .error _ => destination.files

/-- One event; an update that fails leaves the lock file as it is. -/
def IndexRepo.step (sha : Bytes → String) (s : IndexRepo V) : RepoEvent V → IndexRepo V
  | .edit index => { s with index }
  | .update downloads =>
    match update sha s.index s.lock downloads with
    | .ok lock => { s with lock }
    | .error _ => s
  | .commit => { s with commits := s.commits ++ [(s.index, s.lock)] }
  | .load lobby commit isFile createDirAll downloads =>
    match s.commits[commit]? with
    | none => s
    | some loaded =>
      let files' := loadFiles sha loaded ⟨isFile, createDirAll, s.lobbies lobby⟩ downloads
      { s with lobbies := Function.update s.lobbies lobby files' }

def IndexRepo.run (sha : Bytes → String) (s : IndexRepo V) (events : List (RepoEvent V)) : IndexRepo V :=
  events.foldl (IndexRepo.step sha) s

/-- The releases of an index have files of their own, and so has the release in question. -/
structure IndexSet.Files (index : IndexSet V) (name : String) (version : V) : Prop where
  own : index.allReleases.OwnFiles
  only : ∀ release ∈ index.allReleases.releases,
    releaseFile release.apworldName release.version = releaseFile name version → release.key = (name, version)

/-- A release is pinned to a checksum: in the lock file, in each commit that offers it, and in the folders. -/
structure IndexRepo.Pins (sha : Bytes → String) (s : IndexRepo V) (name : String) (version : V) (checksum : String) :
    Prop where
  lock : s.lock.getChecksum name version = some checksum
  commits : ∀ commit ∈ s.commits, commit.1.allReleases.Offers none name version →
    commit.2.getChecksum name version = some checksum
  files : ∀ lobby bytes, s.lobbies lobby (releaseFile name version) = some (.ok bytes) → sha bytes = checksum

/-- No index so far confuses the file of the release with another one. -/
structure IndexRepo.Files (s : IndexRepo V) (name : String) (version : V) : Prop where
  index : s.index.Files name version
  commits : ∀ commit ∈ s.commits, commit.1.Files name version

/-- The release is in the index whenever that is updated, and its file isn't another release's. -/
def IndexRepo.Allows (s : IndexRepo V) (name : String) (version : V) : RepoEvent V → Prop
  | .edit index => index.Files name version
  | .update _ => s.index.allReleases.Offers none name version
  | .commit => True
  | .load .. => True

variable {sha : Bytes → String}

lemma update_eq_ok {index : IndexSet V} {lock newLock : IndexLock V} {downloads : Downloads V}
    (ok : update sha index lock downloads = .ok newLock) :
    ∃ files', index.allReleases.refreshInto sha (.ok lock) ⟨false, .ok (), fun _ => none⟩ true none downloads =
      .ok (newLock, files') := by
  unfold update IndexSet.refreshInto at ok
  cases came : index.allReleases.refreshInto sha (.ok lock) ⟨false, .ok (), fun _ => none⟩ true none downloads with
  | error e =>
    rw [came] at ok
    cases ok
  | ok out =>
    rw [came] at ok
    cases ok
    exact ⟨out.2, rfl⟩

/-- An update takes the checksum of a release over exactly if the index still has the release, and never changes one. -/
theorem update_keeps_iff {index : IndexSet V} {lock newLock : IndexLock V} {downloads : Downloads V}
    (own : index.allReleases.OwnFiles) (ok : update sha index lock downloads = .ok newLock)
    {name : String} {version : V} {checksum : String} (pinned : lock.getChecksum name version = some checksum) :
    (newLock.getChecksum name version = some checksum ↔ index.allReleases.Offers none name version) ∧
      ∀ c ∈ newLock.getChecksum name version, c = checksum := by
  obtain ⟨files', ok⟩ := update_eq_ok ok
  have refreshes := Index.refreshInto_refreshes own ok
  by_cases offers : index.allReleases.Offers none name version
  · obtain ⟨release, mem, isKey, considered⟩ := id offers
    obtain ⟨rfl, rfl⟩ := Prod.mk.inj isKey
    have taken : newLock.getChecksum release.apworldName release.version = some checksum := by
      cases refreshes.offered release mem considered with
      | kept checksum' keeps isLock sameFile => rw [isLock, ← keeps.old, pinned]
      | downloaded bytes notKept expected isLock isFile => exact absurd ⟨pinned, .inl rfl⟩ (notKept checksum)
      | failed notKept isLock sameFile => exact absurd ⟨pinned, .inl rfl⟩ (notKept checksum)
    refine ⟨iff_of_true taken offers, fun c isLock => ?_⟩
    rw [taken] at isLock
    exact (Option.some.inj isLock).symm
  · have gone := refreshes.locks name version offers
    refine ⟨iff_of_false (by rw [gone]; exact Option.some_ne_none checksum |>.symm) offers, fun c isLock => ?_⟩
    rw [gone] at isLock
    cases isLock

/-- An index set with the one release 1.0.0 of a world, which is a custom one. -/
def HasOne (set : IndexSet PlainVersion) : Prop :=
  set.allReleases.releases.map IndexRelease.key = [("world", plain 1 0 0)] ∧
    set.allReleases.releases.all (fun release => !release.world.disabled && !release.origin.isSupported) = true

lemma HasOne.offers {set : IndexSet PlainVersion} (one : HasOne set) :
    set.allReleases.Offers none "world" (plain 1 0 0) := by
  have mem : ("world", plain 1 0 0) ∈ set.allReleases.releases.map IndexRelease.key := by
    rw [one.1]
    exact List.mem_singleton_self _
  obtain ⟨release, there, isKey⟩ := List.mem_map.mp mem
  have fine := List.all_eq_true.mp one.2 release there
  rw [Bool.and_eq_true, Bool.not_eq_true', Bool.not_eq_true'] at fine
  exact ⟨release, there, isKey, fun _ isTarget => absurd isTarget (Option.not_mem_none _), fine.1, fine.2⟩

lemma HasOne.files {set : IndexSet PlainVersion} (one : HasOne set) : set.Files "world" (plain 1 0 0) := by
  refine ⟨Index.ownFiles_of_key _ one.1, fun release mem _ => ?_⟩
  apply List.mem_singleton.mp
  rw [← one.1]
  exact List.mem_map.mpr ⟨release, mem, rfl⟩

/-- A lock file with a checksum for that release. -/
def oneLock (checksum : String) : IndexLock PlainVersion :=
  IndexLock.default.setChecksum "world" (plain 1 0 0) checksum

lemma getChecksum_oneLock (checksum : String) :
    (oneLock checksum).getChecksum "world" (plain 1 0 0) = some checksum := by
  rw [oneLock, IndexLock.getChecksum_setChecksum, if_pos rfl]

lemma exists_hasOne : ∃ set newLock, HasOne set ∧ update byLength set (oneLock "5") (giving [1, 2, 3]) = .ok newLock := by
  have ran : (IndexSet.new (plainSource [("world", plainWorld "World" [(plain 1 0 0, .url "w")])])).toOption.any
      (fun set => (update byLength set (oneLock "5") (giving [1, 2, 3])).toOption.any fun _ =>
        set.allReleases.releases.map IndexRelease.key = [("world", plain 1 0 0)] ∧
          set.allReleases.releases.all
            (fun release => !release.world.disabled && !release.origin.isSupported)) = true := by
    decide
  obtain ⟨set, _, ran⟩ := exists_ok_of_any ran
  obtain ⟨newLock, ok, checks⟩ := exists_ok_of_any ran
  have checks := of_decide_eq_true checks
  exact ⟨set, newLock, checks, ok⟩

/-- A checksum is kept though the release would have another one by now. -/
theorem update_keeps_one : ∃ set newLock,
    update byLength set (oneLock "5") (giving [1, 2, 3]) = .ok newLock ∧
      newLock.getChecksum "world" (plain 1 0 0) = some "5" := by
  obtain ⟨set, newLock, one, ok⟩ := exists_hasOne
  exact ⟨set, newLock, ok, (update_keeps_iff one.files.own ok (getChecksum_oneLock "5")).1.mpr one.offers⟩

/-- A lobby that loads a commit gets nothing else for a release than what the commit pins. -/
lemma loadFiles_pinned {commit : IndexSet V × IndexLock V} {destination : Destination} {downloads : Downloads V}
    {name : String} {version : V} {checksum : String} (files : commit.1.Files name version)
    (pinned : commit.1.allReleases.Offers none name version → commit.2.getChecksum name version = some checksum)
    (before : ∀ bytes, destination.files (releaseFile name version) = some (.ok bytes) → sha bytes = checksum)
    {bytes : Bytes}
    (there : loadFiles sha commit destination downloads (releaseFile name version) = some (.ok bytes)) :
    sha bytes = checksum := by
  unfold loadFiles IndexSet.refreshInto at there
  cases ok : commit.1.allReleases.refreshInto sha (.ok commit.2) destination false none downloads with
  | ok out =>
    rw [ok] at there
    have refreshes := Index.refreshInto_refreshes files.own ok
    by_cases same : out.2 (releaseFile name version) = destination.files (releaseFile name version)
    · exact before bytes (same.symm.trans there)
    · obtain ⟨release, mem, considered, isFile⟩ := refreshes.others _ same
      have isKey := files.only release mem isFile
      have pinned := pinned ⟨release, mem, isKey, considered⟩
      obtain ⟨rfl, rfl⟩ := Prod.mk.inj isKey
      cases refreshes.offered release mem considered with
      | kept checksum' keeps isLock sameFile => exact absurd sameFile same
      | downloaded bytes' notKept expected isLock isFile =>
        have whole := isFile.symm.trans there
        cases whole
        exact expected checksum pinned
      | failed notKept isLock sameFile => exact absurd sameFile same
  | error e =>
    rw [ok] at there
    exact before bytes there

lemma IndexRepo.Pins.step {s : IndexRepo V} {name : String} {version : V} {checksum : String}
    (pins : s.Pins sha name version checksum) (files : s.Files name version) {event : RepoEvent V}
    (allows : s.Allows name version event) :
    (s.step sha event).Pins sha name version checksum ∧ (s.step sha event).Files name version := by
  cases event with
  | edit index => exact ⟨⟨pins.lock, pins.commits, pins.files⟩, ⟨allows, files.commits⟩⟩
  | update downloads =>
    cases ok : update sha s.index s.lock downloads with
    | error e =>
      have same : s.step sha (.update downloads) = s := by rw [IndexRepo.step, ok]
      rw [same]
      exact ⟨pins, files⟩
    | ok newLock =>
      have step : s.step sha (.update downloads) = { s with lock := newLock } := by rw [IndexRepo.step, ok]
      have taken := (update_keeps_iff files.index.own ok pins.lock).1.mpr allows
      rw [step]
      exact ⟨⟨taken, pins.commits, pins.files⟩, ⟨files.index, files.commits⟩⟩
  | commit =>
    refine ⟨⟨pins.lock, ?_, pins.files⟩, ⟨files.index, ?_⟩⟩
    · intro commit mem offers
      rcases List.mem_append.mp mem with mem | mem
      · exact pins.commits commit mem offers
      · rw [List.mem_singleton.mp mem]
        exact pins.lock
    · intro commit mem
      rcases List.mem_append.mp mem with mem | mem
      · exact files.commits commit mem
      · rw [List.mem_singleton.mp mem]
        exact files.index
  | load lobby commit isFile createDirAll downloads =>
    cases found : s.commits[commit]? with
    | none =>
      have same : s.step sha (.load lobby commit isFile createDirAll downloads) = s := by rw [IndexRepo.step, found]
      rw [same]
      exact ⟨pins, files⟩
    | some loaded =>
      have mem := List.mem_of_getElem? found
      have step : s.step sha (.load lobby commit isFile createDirAll downloads) =
          { s with lobbies := Function.update s.lobbies lobby
                     (loadFiles sha loaded ⟨isFile, createDirAll, s.lobbies lobby⟩ downloads) } := by
        rw [IndexRepo.step, found]
      rw [step]
      refine ⟨⟨pins.lock, pins.commits, ?_⟩, ⟨files.index, files.commits⟩⟩
      intro lobby' bytes there
      by_cases here : lobby' = lobby
      · subst here
        simp only [Function.update_self] at there
        exact loadFiles_pinned (files.commits loaded mem) (pins.commits loaded mem) (pins.files lobby') there
      · simp only [Function.update_of_ne here] at there
        exact pins.files lobby' bytes there

end ArchipelagoXL.Apwm
