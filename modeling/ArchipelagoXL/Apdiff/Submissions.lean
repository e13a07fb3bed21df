import Mathlib.Data.List.MinMax
import Mathlib.Data.Set.Function

/-!
# Submissions and their files

The diff viewer takes in submissions of worlds and shows for each of them what changed
(`apdiff-viewer/src/api/mod.rs`). Bytes are kept as blobs under their SHA-256, and one table, shared by all
submissions, says which blobs were ever uploaded for a version of a world, and when each was first seen
(`apdiff-viewer/src/db/submissions.rs`). A page fetches the tree of a version by way of that table
(`apdiff-viewer/src/source/submission.rs`).

The table is asked for the blob that was first seen last, whichever submission the page is of. A
submission is shown its own files exactly if what was first seen last for the version has the same tree
(`submission_shows_own_files_iff`).

Hashing and the extraction of an archive are parameters. A request begins with its manifest and the
entries of its tarball; annotations, sizes and what else a manifest has are left out.
-/

namespace ArchipelagoXL.Apdiff

/-- Rust `AddedEntry`. -/
structure AddedEntry where
  worldName : String
  version : String
deriving DecidableEq

/-- A row of `apworld_artifacts`. -/
structure ApworldArtifact where
  worldName : String
  version : String
  sha256 : String
  firstSeenAt : ℤ
deriving DecidableEq

/-- A row of `submissions`. -/
structure Submission where
  id : String
  manifest : List AddedEntry
deriving DecidableEq

/-- A row of `submission_artifacts`. -/
structure SubmissionArtifact where
  submissionId : String
  worldName : String
  version : String
  sha256 : String
deriving DecidableEq

/-- What was uploaded in a submission that was stored. -/
structure Uploaded (B : Type) where
  submissionId : String
  added : AddedEntry
  bytes : B
deriving DecidableEq

/-- The blobs, the tables and the cache of trees, and what was uploaded in each submission, which nothing
reads. -/
structure Viewer (B T : Type) where
  blobs : String → Option B
  artifacts : List ApworldArtifact
  submissions : List Submission
  submissionArtifacts : List SubmissionArtifact
  treeCache : String → Option T
  uploaded : List (Uploaded B)

/-- A viewer that has nothing. -/
def Viewer.new (B T : Type) : Viewer B T := ⟨fun _ => none, [], [], [], fun _ => none, []⟩

/-- A status and a text (Rust `SubmissionError`). -/
abbrev SubmissionError := ℕ × String

/-- Rust `MAX_ID_ATTEMPTS`. -/
def maxIdAttempts : ℕ := 5

/-- Where a tarball has the bytes of an entry of its manifest. -/
def AddedEntry.key (added : AddedEntry) : String :=
  "apworlds/" ++ added.worldName ++ "-" ++ added.version ++ ".apworld"

section

variable {B T : Type} (sha256 : B → String) (extract : B → Except String T)

/-! ## Requests -/

/-- The loop that pairs every entry of a manifest with its bytes. -/
def artifactUploads : List AddedEntry → (String → Option B) →
    Except SubmissionError (List (AddedEntry × B))
  | [], _ => .ok []
  | added :: manifest, entriesByPath =>
    match entriesByPath added.key with
    | none => .error (400, "manifest references " ++ added.key ++ " but tarball has no such entry")
    | some bytes =>
      (artifactUploads manifest (Function.update entriesByPath added.key none)).map
        fun uploads => (added, bytes) :: uploads

/-- Rust `BlobStore::put`. -/
def Viewer.put (s : Viewer B T) (bytes : B) : Viewer B T :=
  { s with blobs := Function.update s.blobs (sha256 bytes) (some bytes) }

/-- Rust `insert_apworld_artifact`: a row that is there stays as it is. -/
def insertApworldArtifact (rows : List ApworldArtifact) (added : AddedEntry) (sha : String) (now : ℤ) :
    List ApworldArtifact :=
  if rows.any fun row =>
    decide (row.worldName = added.worldName ∧ row.version = added.version ∧ row.sha256 = sha) then rows
  else rows ++ [⟨added.worldName, added.version, sha, now⟩]

/-- The rows of a submission; none if one of them is there already. -/
def insertSubmissionArtifacts (id : String) :
    List (AddedEntry × B) → List SubmissionArtifact → Option (List SubmissionArtifact)
  | [], rows => some rows
  | (added, bytes) :: uploads, rows =>
    if rows.any fun row =>
      decide (row.submissionId = id ∧ row.worldName = added.worldName ∧ row.version = added.version) then
      none
    else
      insertSubmissionArtifacts id uploads (rows ++ [⟨id, added.worldName, added.version, sha256 bytes⟩])

/-- Rust `insert_submission_with_artifacts`: all rows in one transaction, or none if one of them is
there already. -/
def Viewer.insertSubmissionWithArtifacts (s : Viewer B T) (submission : Submission)
    (uploads : List (AddedEntry × B)) (now : ℤ) : Option (Viewer B T) :=
  if s.submissions.any fun row => decide (row.id = submission.id) then none
  else
    (insertSubmissionArtifacts sha256 submission.id uploads s.submissionArtifacts).map fun rows =>
      { s with
        artifacts := uploads.foldl (fun rows u => insertApworldArtifact rows u.1 (sha256 u.2) now) s.artifacts
        submissions := s.submissions ++ [submission]
        submissionArtifacts := rows
        uploaded := s.uploaded ++ uploads.map fun u => ⟨submission.id, u.1, u.2⟩ }

/-- Rust `submit_apworlds`, with the ids that are drawn and the time of each transaction. -/
def Viewer.submitApworlds (s : Viewer B T) (manifest : List AddedEntry)
    (entriesByPath : String → Option B) (candidates : List (String × ℤ)) :
    Viewer B T × Except SubmissionError String :=
  match artifactUploads manifest entriesByPath with
  | .error e => (s, .error e)
  | .ok uploads =>
    let s := uploads.foldl (fun s u => s.put sha256 u.2) s
    let stored := (candidates.take maxIdAttempts).findSome? fun candidate =>
      (s.insertSubmissionWithArtifacts sha256 ⟨candidate.1, manifest⟩ uploads candidate.2).map
        fun s => (s, candidate.1)
    match stored with
    | none => (s, .error (500, "could not generate a unique submission id"))
    | some (s, id) => (s, .ok id)

/-- Rust `ImportResponse`. -/
structure ImportResponse where
  world : String
  version : String
  sha256 : String
  stored : Bool
deriving DecidableEq

/-- Rust `import_apworld`; an empty body has no bytes. -/
def Viewer.importApworld (s : Viewer B T) (world version : String) (body : Option B) (now : ℤ) :
    Viewer B T × Except SubmissionError ImportResponse :=
  if world = "" then (s, .error (400, "world query parameter is required"))
  else if version = "" then (s, .error (400, "version query parameter is required"))
  else
    match body with
    | none => (s, .error (400, "body is empty"))
    | some bytes =>
      let s := s.put sha256 bytes
      let artifacts := insertApworldArtifact s.artifacts ⟨world, version⟩ (sha256 bytes) now
      ({ s with artifacts := artifacts },
        .ok ⟨world, version, sha256 bytes, decide (s.artifacts.length < artifacts.length)⟩)

/-! ## Pages -/

/-- The rows of a version of a world. -/
def Viewer.rowsOf (s : Viewer B T) (world version : String) : List ApworldArtifact :=
  s.artifacts.filter fun row => decide (row.worldName = world ∧ row.version = version)

/-- A row that was first seen last among the rows of its version. -/
def Newest (rows : List ApworldArtifact) (row : ApworldArtifact) : Prop :=
  ∀ other ∈ rows, other.firstSeenAt ≤ row.firstSeenAt

instance (rows : List ApworldArtifact) (row : ApworldArtifact) : Decidable (Newest rows row) :=
  inferInstanceAs (Decidable (∀ other ∈ rows, other.firstSeenAt ≤ row.firstSeenAt))

/-- Rust `lookup_artifact_sha`; of several rows with the latest time the database takes one. -/
def Viewer.lookupArtifactSha (s : Viewer B T) (world version : String) (pick : ℕ) : Option String :=
  let rows := s.rowsOf world version
  let newest := rows.filter fun row => decide (Newest rows row)
  (newest[pick % newest.length]?).map ApworldArtifact.sha256

/-- Rust `SubmissionSource`, less what it borrows. -/
structure SubmissionSource where
  submissionId : String
deriving DecidableEq

/-- Rust `SubmissionSource::load`. -/
def SubmissionSource.load (s : Viewer B T) (submissionId : String) : Option SubmissionSource :=
  (s.submissions.find? fun row => decide (row.id = submissionId)).map fun row => ⟨row.id⟩

/-- The key of a tree in the cache. -/
def treeKey (sha : String) : String := "sha:" ++ sha

/-- Rust `SubmissionSource::fetch_tree`; a tree that is extracted goes into the cache. -/
def SubmissionSource.fetchTree (_ : SubmissionSource) (s : Viewer B T) (world version : String)
    (pick : ℕ) : Except String T × Viewer B T :=
  match s.lookupArtifactSha world version pick with
  | none => (.error ("no stored blob for " ++ world ++ " v" ++ version), s)
  | some sha =>
    match s.treeCache (treeKey sha) with
    | some tree => (.ok tree, s)
    | none =>
      match s.blobs sha with
      | none => (.error ("read blob " ++ sha), s)
      | some bytes =>
        match extract bytes with
        | .error e => (.error e, s)
        | .ok tree =>
          (.ok tree, { s with treeCache := Function.update s.treeCache (treeKey sha) (some tree) })

/-! ## Histories -/

variable (B) in
/-- The requests, a page that fetches a tree, and a tree that falls out of the cache. -/
inductive ViewerOp where
  | submit (manifest : List AddedEntry) (entriesByPath : String → Option B)
    (candidates : List (String × ℤ))
  | importApworld (world version : String) (body : Option B) (now : ℤ)
  | fetch (source : SubmissionSource) (world version : String) (pick : ℕ)
  | evict (key : String)

/-- What an operation does. -/
def Viewer.step (s : Viewer B T) : ViewerOp B → Viewer B T
  | .submit manifest entriesByPath candidates =>
    (s.submitApworlds sha256 manifest entriesByPath candidates).1
  | .importApworld world version body now => (s.importApworld sha256 world version body now).1
  | .fetch source world version pick => (source.fetchTree extract s world version pick).2
  | .evict key => { s with treeCache := Function.update s.treeCache key none }

/-- The viewer after some operations, the newest first. -/
def viewerAfter : List (ViewerOp B) → Viewer B T
  | [] => .new B T
  | op :: ops => (viewerAfter ops).step sha256 extract op

/-- The bytes that an operation brings. -/
def ViewerOp.Brings : ViewerOp B → B → Prop
  | .submit _ entriesByPath _, bytes => ∃ path, entriesByPath path = some bytes
  | .importApworld _ _ body _, bytes => body = some bytes
  | _, _ => False

/-- No two of the bytes that are brought have the same hash. -/
def NoCollision (ops : List (ViewerOp B)) : Prop :=
  ∀ op ∈ ops, ∀ op' ∈ ops, ∀ bytes bytes', op.Brings bytes → op'.Brings bytes' →
    sha256 bytes = sha256 bytes' → bytes = bytes'

/-- Whatever was first seen last for a version of a world has the tree of the given bytes. -/
def Viewer.NewestAlike (s : Viewer B T) (world version : String) (bytes : B) : Prop :=
  ∀ row ∈ s.rowsOf world version, Newest (s.rowsOf world version) row →
    ∀ other, s.blobs row.sha256 = some other → extract other = extract bytes

/-! ## What holds in every viewer -/

/-- What holds in a viewer if all bytes that were brought satisfy `Brought`. -/
structure Viewer.Sound (Brought : B → Prop) (s : Viewer B T) : Prop where
  hash : ∀ sha bytes, s.blobs sha = some bytes → sha256 bytes = sha ∧ Brought bytes
  stored : ∀ row ∈ s.artifacts, ∃ bytes, s.blobs row.sha256 = some bytes
  cached : ∀ sha tree, s.treeCache (treeKey sha) = some tree →
    ∃ bytes, s.blobs sha = some bytes ∧ extract bytes = .ok tree
  kept : ∀ u ∈ s.uploaded, s.blobs (sha256 u.bytes) = some u.bytes
  seen : ∀ u ∈ s.uploaded, ∃ row ∈ s.artifacts,
    row.worldName = u.added.worldName ∧ row.version = u.added.version ∧ row.sha256 = sha256 u.bytes
  complete : ∀ submission ∈ s.submissions, ∀ added ∈ submission.manifest,
    ∃ u ∈ s.uploaded, u.submissionId = submission.id ∧ u.added = added

variable {sha256 extract} {Brought : B → Prop} {s s' : Viewer B T}

lemma Viewer.Sound.mono (sound : s.Sound sha256 extract Brought) {Brought' : B → Prop}
    (more : ∀ bytes, Brought bytes → Brought' bytes) : s.Sound sha256 extract Brought' := by
  refine ⟨fun sha bytes e => ?_, sound.stored, sound.cached, sound.kept, sound.seen, sound.complete⟩
  have ⟨hashed, brought⟩ := sound.hash sha bytes e
  exact ⟨hashed, more bytes brought⟩

lemma treeKey_inj {sha sha' : String} : treeKey sha = treeKey sha' ↔ sha = sha' :=
  String.append_right_inj "sha:"

lemma Viewer.put_blobs (s : Viewer B T) (bytes : B) (sha : String) :
    (s.put sha256 bytes).blobs sha = if sha = sha256 bytes then some bytes else s.blobs sha :=
  Function.update_apply ..

/-- A viewer that got some bytes has all blobs that it had. -/
lemma Viewer.Sound.put_keeps (sound : s.Sound sha256 extract Brought) (inj : Set.InjOn sha256 Brought)
    {bytes : B} (brought : Brought bytes) {sha : String} {kept : B} (e : s.blobs sha = some kept) :
    (s.put sha256 bytes).blobs sha = some kept := by
  have ⟨hashed, broughtKept⟩ := sound.hash sha kept e
  rw [Viewer.put_blobs]
  split
  case isTrue same =>
    have eq : bytes = kept := inj brought broughtKept (same.symm.trans hashed.symm)
    rw [eq]
  case isFalse => exact e

lemma Viewer.put_blobs_self (s : Viewer B T) (bytes : B) :
    (s.put sha256 bytes).blobs (sha256 bytes) = some bytes :=
  Function.update_self ..

lemma Viewer.Sound.put (sound : s.Sound sha256 extract Brought) (inj : Set.InjOn sha256 Brought)
    {bytes : B} (brought : Brought bytes) : (s.put sha256 bytes).Sound sha256 extract Brought := by
  refine ⟨fun sha other e => ?_, fun row mem => ?_, fun sha tree e => ?_, fun u mem => ?_, sound.seen,
    sound.complete⟩
  · rw [Viewer.put_blobs] at e
    split at e
    case isTrue same =>
      obtain rfl : bytes = other := Option.some.inj e
      exact ⟨same.symm, brought⟩
    case isFalse => exact sound.hash sha other e
  · obtain ⟨other, e⟩ := sound.stored row mem
    exact ⟨other, sound.put_keeps inj brought e⟩
  · obtain ⟨other, e, extracted⟩ := sound.cached sha tree e
    exact ⟨other, sound.put_keeps inj brought e, extracted⟩
  · exact sound.put_keeps inj brought (sound.kept u mem)

/-- Putting the bytes of all uploads keeps what holds, and has all of them stored. -/
lemma Viewer.Sound.putAll (inj : Set.InjOn sha256 Brought) (uploads : List (AddedEntry × B)) :
    ∀ {s : Viewer B T}, s.Sound sha256 extract Brought → (∀ u ∈ uploads, Brought u.2) →
      let after := uploads.foldl (fun s u => s.put sha256 u.2) s
      after.Sound sha256 extract Brought ∧ (∀ u ∈ uploads, after.blobs (sha256 u.2) = some u.2) ∧
        ∀ sha bytes, s.blobs sha = some bytes → after.blobs sha = some bytes := by
  induction uploads with
  | nil =>
    intro s sound _ after
    exact ⟨sound, fun u mem => (by cases mem), fun _ _ e => e⟩
  | cons u uploads ih =>
    intro s sound brought after
    have hu : Brought u.2 := brought u List.mem_cons_self
    have ⟨soundAfter, allAfter, keepsAfter⟩ :=
      ih (sound.put inj hu) fun v mem => brought v (List.mem_cons_of_mem u mem)
    refine ⟨soundAfter, fun v mem => ?_, fun sha bytes e => ?_⟩
    · rcases List.mem_cons.mp mem with rfl | mem
      · exact keepsAfter _ _ (s.put_blobs_self v.2)
      · exact allAfter v mem
    · exact keepsAfter sha bytes (sound.put_keeps inj hu e)

/-! ## Requests keep it -/

/-- The uploads of a request are the entries of its manifest, with bytes from its tarball. -/
lemma artifactUploads_ok {manifest : List AddedEntry} :
    ∀ {entriesByPath : String → Option B} {uploads : List (AddedEntry × B)},
      artifactUploads manifest entriesByPath = .ok uploads →
        uploads.map Prod.fst = manifest ∧ ∀ u ∈ uploads, ∃ path, entriesByPath path = some u.2 := by
  induction manifest with
  | nil =>
    intro entriesByPath uploads h
    obtain rfl : [] = uploads := Except.ok.inj h
    exact ⟨rfl, fun u mem => by cases mem⟩
  | cons added manifest ih =>
    intro entriesByPath uploads h
    rw [artifactUploads] at h
    cases found : entriesByPath added.key with
    | none => rw [found] at h; cases h
    | some bytes =>
      rw [found] at h
      cases rest : artifactUploads manifest (Function.update entriesByPath added.key none) with
      | error e => simp [rest, Except.map] at h
      | ok others =>
        simp only [rest, Except.map, Except.ok.injEq] at h
        subst h
        have ⟨names, sources⟩ := ih rest
        refine ⟨by simp [names], fun u mem => ?_⟩
        rcases List.mem_cons.mp mem with rfl | mem
        · exact ⟨added.key, found⟩
        · obtain ⟨path, e⟩ := sources u mem
          rw [Function.update_apply] at e
          split at e
          case isTrue => cases e
          case isFalse => exact ⟨path, e⟩

lemma insertApworldArtifact_keeps {rows : List ApworldArtifact} {added : AddedEntry} {sha : String}
    {now : ℤ} {row : ApworldArtifact} (mem : row ∈ rows) :
    row ∈ insertApworldArtifact rows added sha now := by
  rw [insertApworldArtifact]
  split
  case isTrue => exact mem
  case isFalse => exact List.mem_append_left _ mem

/-- Every row is one that was there or has the hash that came. -/
lemma mem_insertApworldArtifact {rows : List ApworldArtifact} {added : AddedEntry} {sha : String}
    {now : ℤ} {row : ApworldArtifact} (mem : row ∈ insertApworldArtifact rows added sha now) :
    row ∈ rows ∨ row.sha256 = sha := by
  rw [insertApworldArtifact] at mem
  split at mem
  case isTrue => exact .inl mem
  case isFalse =>
    rcases List.mem_append.mp mem with old | new
    · exact .inl old
    · exact .inr (by rw [List.mem_singleton.mp new])

/-- The hash that came has a row for its version. -/
lemma insertApworldArtifact_has (rows : List ApworldArtifact) (added : AddedEntry) (sha : String)
    (now : ℤ) : ∃ row ∈ insertApworldArtifact rows added sha now,
      row.worldName = added.worldName ∧ row.version = added.version ∧ row.sha256 = sha := by
  rw [insertApworldArtifact]
  split
  case isTrue there =>
    obtain ⟨row, mem, e⟩ := List.any_eq_true.mp there
    exact ⟨row, mem, of_decide_eq_true e⟩
  case isFalse => exact ⟨⟨added.worldName, added.version, sha, now⟩, by simp, rfl, rfl, rfl⟩

variable (sha256) in
/-- The rows after all uploads of a request: the old ones, rows of its hashes, and one for every upload. -/
lemma insertAll_artifacts (now : ℤ) (uploads : List (AddedEntry × B)) :
    ∀ rows : List ApworldArtifact,
      let after := uploads.foldl (fun rows u => insertApworldArtifact rows u.1 (sha256 u.2) now) rows
      (∀ row ∈ rows, row ∈ after) ∧ (∀ row ∈ after, row ∈ rows ∨ ∃ u ∈ uploads, row.sha256 = sha256 u.2) ∧
        ∀ u ∈ uploads, ∃ row ∈ after,
          row.worldName = u.1.worldName ∧ row.version = u.1.version ∧ row.sha256 = sha256 u.2 := by
  induction uploads with
  | nil =>
    intro rows after
    exact ⟨fun _ mem => mem, fun _ mem => .inl mem, fun u mem => by cases mem⟩
  | cons u uploads ih =>
    intro rows after
    have ⟨keeps, sources, has⟩ := ih (insertApworldArtifact rows u.1 (sha256 u.2) now)
    refine ⟨fun row mem => keeps row (insertApworldArtifact_keeps mem), fun row mem => ?_, fun v mem => ?_⟩
    · rcases sources row mem with old | ⟨v, hv, e⟩
      · rcases mem_insertApworldArtifact old with older | e
        · exact .inl older
        · exact .inr ⟨u, List.mem_cons_self, e⟩
      · exact .inr ⟨v, List.mem_cons_of_mem u hv, e⟩
    · rcases List.mem_cons.mp mem with rfl | mem
      · obtain ⟨row, hrow, e⟩ := insertApworldArtifact_has rows v.1 (sha256 v.2) now
        exact ⟨row, keeps row hrow, e⟩
      · exact has v mem

/-- A submission is stored only with bytes whose blobs are there. -/
lemma Viewer.Sound.insertSubmission (sound : s.Sound sha256 extract Brought) {submission : Submission}
    {uploads : List (AddedEntry × B)} {now : ℤ} (names : uploads.map Prod.fst = submission.manifest)
    (blobs : ∀ u ∈ uploads, s.blobs (sha256 u.2) = some u.2)
    (h : s.insertSubmissionWithArtifacts sha256 submission uploads now = some s') :
    s'.Sound sha256 extract Brought := by
  rw [Viewer.insertSubmissionWithArtifacts] at h
  split at h
  case isTrue => cases h
  case isFalse =>
    obtain ⟨rows, -, rfl⟩ := Option.map_eq_some_iff.mp h
    have ⟨keeps, sources, has⟩ := insertAll_artifacts sha256 now uploads s.artifacts
    refine ⟨sound.hash, fun row mem => ?_, sound.cached, fun u mem => ?_, fun u mem => ?_,
      fun stored mem added hadded => ?_⟩
    · rcases sources row mem with old | ⟨u, hu, e⟩
      · exact sound.stored row old
      · exact ⟨u.2, e ▸ blobs u hu⟩
    · rcases List.mem_append.mp mem with old | new
      · exact sound.kept u old
      · obtain ⟨v, hv, rfl⟩ := List.mem_map.mp new
        exact blobs v hv
    · rcases List.mem_append.mp mem with old | new
      · obtain ⟨row, hrow, e⟩ := sound.seen u old
        exact ⟨row, keeps row hrow, e⟩
      · obtain ⟨v, hv, rfl⟩ := List.mem_map.mp new
        exact has v hv
    · rcases List.mem_append.mp mem with old | new
      · obtain ⟨u, hu, e⟩ := sound.complete stored old added hadded
        exact ⟨u, List.mem_append_left _ hu, e⟩
      · obtain rfl := List.mem_singleton.mp new
        rw [← names] at hadded
        obtain ⟨u, hu, rfl⟩ := List.mem_map.mp hadded
        exact ⟨⟨stored.id, u.1, u.2⟩, List.mem_append_right _ (List.mem_map.mpr ⟨u, hu, rfl⟩), rfl, rfl⟩

lemma Viewer.Sound.submitApworlds (sound : s.Sound sha256 extract Brought)
    (inj : Set.InjOn sha256 Brought) {manifest : List AddedEntry} {entriesByPath : String → Option B}
    (brought : ∀ path bytes, entriesByPath path = some bytes → Brought bytes)
    (candidates : List (String × ℤ)) :
    (s.submitApworlds sha256 manifest entriesByPath candidates).1.Sound sha256 extract Brought := by
  rw [Viewer.submitApworlds]
  split
  case h_1 => exact sound
  case h_2 uploads uploaded =>
    have ⟨names, sources⟩ := artifactUploads_ok uploaded
    have broughtAll : ∀ u ∈ uploads, Brought u.2 := by
      intro u mem
      obtain ⟨path, e⟩ := sources u mem
      exact brought path u.2 e
    obtain ⟨soundPut, blobs, -⟩ := sound.putAll inj uploads broughtAll
    simp only
    split
    case h_1 => exact soundPut
    case h_2 stored id found =>
      obtain ⟨candidate, -, tried⟩ := List.exists_of_findSome?_eq_some found
      obtain ⟨after, inserted, e⟩ := Option.map_eq_some_iff.mp tried
      obtain ⟨rfl, -⟩ := Prod.mk.inj e
      exact soundPut.insertSubmission names blobs inserted

lemma Viewer.Sound.importApworld (sound : s.Sound sha256 extract Brought)
    (inj : Set.InjOn sha256 Brought) (world version : String) {body : Option B}
    (brought : ∀ bytes, body = some bytes → Brought bytes) (now : ℤ) :
    (s.importApworld sha256 world version body now).1.Sound sha256 extract Brought := by
  rw [Viewer.importApworld.eq_def]
  split
  case isTrue => exact sound
  split
  case isTrue => exact sound
  split
  case h_1 => exact sound
  case h_2 bytes =>
    have soundPut := sound.put inj (brought bytes rfl)
    refine ⟨soundPut.hash, fun row mem => ?_, soundPut.cached, soundPut.kept, fun u mem => ?_,
      soundPut.complete⟩
    · rcases mem_insertApworldArtifact mem with old | e
      · exact soundPut.stored row old
      · rw [e]
        exact ⟨bytes, s.put_blobs_self bytes⟩
    · obtain ⟨row, hrow, e⟩ := soundPut.seen u mem
      exact ⟨row, insertApworldArtifact_keeps hrow, e⟩

/-! ## Pages keep it -/

/-- Only the cache changes, to trees of stored blobs. -/
lemma Viewer.Sound.withCache (sound : s.Sound sha256 extract Brought) {treeCache : String → Option T}
    (cached : ∀ sha tree, treeCache (treeKey sha) = some tree →
      ∃ bytes, s.blobs sha = some bytes ∧ extract bytes = .ok tree) :
    Viewer.Sound sha256 extract Brought { s with treeCache } :=
  ⟨sound.hash, sound.stored, cached, sound.kept, sound.seen, sound.complete⟩

lemma Viewer.Sound.evict (sound : s.Sound sha256 extract Brought) (key : String) :
    Viewer.Sound sha256 extract Brought
      { s with treeCache := Function.update s.treeCache key none } := by
  refine sound.withCache fun sha tree e => ?_
  rw [Function.update_apply] at e
  split at e
  case isTrue => cases e
  case isFalse => exact sound.cached sha tree e

lemma Viewer.Sound.fetchTree (sound : s.Sound sha256 extract Brought) (source : SubmissionSource)
    (world version : String) (pick : ℕ) :
    (source.fetchTree extract s world version pick).2.Sound sha256 extract Brought := by
  rw [SubmissionSource.fetchTree]
  split
  case h_1 => exact sound
  split
  case h_1 => exact sound
  split
  case h_1 => exact sound
  split
  case h_1 => exact sound
  case h_2 sha _ _ _ _ bytes read _ tree extracted =>
    refine sound.withCache fun sha' tree' e => ?_
    rw [Function.update_apply] at e
    split at e
    case isTrue same =>
      obtain rfl := treeKey_inj.mp same
      obtain rfl := Option.some.inj e
      exact ⟨bytes, read, extracted⟩
    case isFalse => exact sound.cached sha' tree' e

/-! ## Histories keep it -/

lemma Viewer.new_sound : (Viewer.new B T).Sound sha256 extract Brought :=
  ⟨fun _ _ e => (by cases e), fun _ mem => (by cases mem), fun _ _ e => (by cases e),
    fun _ mem => (by cases mem), fun _ mem => (by cases mem), fun _ mem => (by cases mem)⟩

lemma Viewer.Sound.step (sound : s.Sound sha256 extract Brought) (inj : Set.InjOn sha256 Brought)
    (op : ViewerOp B) (brought : ∀ bytes, op.Brings bytes → Brought bytes) :
    (s.step sha256 extract op).Sound sha256 extract Brought := by
  cases op with
  | submit manifest entriesByPath candidates =>
    exact sound.submitApworlds inj (fun path bytes e => brought bytes ⟨path, e⟩) candidates
  | importApworld world version body now => exact sound.importApworld inj world version brought now
  | fetch source world version pick => exact sound.fetchTree source world version pick
  | evict key => exact sound.evict key

/-- The bytes that some operations bring. -/
def BroughtBy (ops : List (ViewerOp B)) (bytes : B) : Prop :=
  ∃ op ∈ ops, op.Brings bytes

lemma NoCollision.injOn {ops : List (ViewerOp B)} (hashes : NoCollision sha256 ops) :
    Set.InjOn sha256 (BroughtBy ops) := by
  rintro bytes ⟨op, hop, brings⟩ bytes' ⟨op', hop', brings'⟩ e
  exact hashes op hop op' hop' bytes bytes' brings brings' e

theorem viewerAfter_sound (ops : List (ViewerOp B)) (inj : Set.InjOn sha256 (BroughtBy ops)) :
    (viewerAfter sha256 extract ops).Sound sha256 extract (BroughtBy ops) := by
  induction ops with
  | nil => exact Viewer.new_sound
  | cons op ops ih =>
    have more : ∀ bytes, BroughtBy ops bytes → BroughtBy (op :: ops) bytes := by
      rintro bytes ⟨earlier, mem, brings⟩
      exact ⟨earlier, List.mem_cons_of_mem op mem, brings⟩
    have sound := (ih (Set.InjOn.mono more inj)).mono more
    exact sound.step inj op fun bytes brings => ⟨op, List.mem_cons_self, brings⟩

/-! ## What a page is shown -/

lemma Viewer.mem_rowsOf {world version : String} {row : ApworldArtifact} :
    row ∈ s.rowsOf world version ↔ row ∈ s.artifacts ∧ row.worldName = world ∧ row.version = version := by
  rw [Viewer.rowsOf, List.mem_filter, decide_eq_true_iff]

/-- Among some rows one was first seen last. -/
lemma exists_newest {rows : List ApworldArtifact} {row : ApworldArtifact} (mem : row ∈ rows) :
    ∃ last ∈ rows, Newest rows last := by
  cases h : rows.argmax ApworldArtifact.firstSeenAt with
  | none =>
    rw [List.argmax_eq_none.mp h] at mem
    cases mem
  | some last => exact ⟨last, List.argmax_mem h, fun other hother => List.le_of_mem_argmax hother h⟩

lemma mem_newest {rows : List ApworldArtifact} {row : ApworldArtifact} :
    row ∈ rows.filter (fun row => decide (Newest rows row)) ↔ row ∈ rows ∧ Newest rows row := by
  rw [List.mem_filter, decide_eq_true_iff]

/-- What is looked up is the hash of a row that was first seen last. -/
lemma Viewer.newest_of_lookup {world version sha : String} {pick : ℕ}
    (h : s.lookupArtifactSha world version pick = some sha) :
    ∃ row ∈ s.rowsOf world version, Newest (s.rowsOf world version) row ∧ row.sha256 = sha := by
  obtain ⟨row, found, e⟩ := Option.map_eq_some_iff.mp h
  have ⟨mem, newest⟩ := mem_newest.mp (List.mem_of_getElem? found)
  exact ⟨row, mem, newest, e⟩

/-- Every row that was first seen last can be the one that is looked up. -/
lemma Viewer.lookup_of_newest {world version : String} {row : ApworldArtifact}
    (mem : row ∈ s.rowsOf world version) (newest : Newest (s.rowsOf world version) row) :
    ∃ pick, s.lookupArtifactSha world version pick = some row.sha256 := by
  have among := mem_newest.mpr ⟨mem, newest⟩
  obtain ⟨pick, lt, e⟩ := List.getElem_of_mem among
  refine ⟨pick, ?_⟩
  rw [Viewer.lookupArtifactSha, Nat.mod_eq_of_lt lt, List.getElem?_eq_getElem lt, e, Option.map_some]

/-- Something is looked up if the version has a row. -/
lemma Viewer.lookup_isSome {world version : String} {row : ApworldArtifact}
    (mem : row ∈ s.rowsOf world version) (pick : ℕ) :
    ∃ sha, s.lookupArtifactSha world version pick = some sha := by
  obtain ⟨last, hlast, newest⟩ := exists_newest mem
  have among := mem_newest.mpr ⟨hlast, newest⟩
  have lt := Nat.mod_lt pick (List.length_pos_of_mem among)
  apply Option.isSome_iff_exists.mp
  rw [Viewer.lookupArtifactSha, List.getElem?_eq_getElem lt, Option.map_some, Option.isSome_some]

/-- A page is shown the tree of the blob that is looked up, from the cache or not. -/
lemma Viewer.Sound.fetchTree_eq (sound : s.Sound sha256 extract Brought) (source : SubmissionSource)
    {world version sha : String} {pick : ℕ} {bytes : B}
    (looked : s.lookupArtifactSha world version pick = some sha) (stored : s.blobs sha = some bytes) :
    (source.fetchTree extract s world version pick).1 = extract bytes := by
  rw [SubmissionSource.fetchTree, looked]
  simp only
  split
  case h_1 tree found =>
    obtain ⟨other, e, extracted⟩ := sound.cached sha tree found
    obtain rfl : other = bytes := Option.some.inj (e.symm.trans stored)
    exact extracted.symm
  case h_2 =>
    rw [stored]
    simp only
    split
    case h_1 e failed => exact failed.symm
    case h_2 tree extracted => exact extracted.symm

/-- The source of a stored submission is the one with its id. -/
lemma SubmissionSource.load_eq {submission : Submission} (mem : submission ∈ s.submissions) :
    SubmissionSource.load s submission.id = some ⟨submission.id⟩ := by
  rw [SubmissionSource.load]
  cases found : s.submissions.find? fun row => decide (row.id = submission.id) with
  | none => exact absurd (decide_eq_true rfl) (List.find?_eq_none.mp found submission mem)
  | some row =>
    have same : decide (row.id = submission.id) = true :=
      @List.find?_some _ (fun row => decide (row.id = submission.id)) row _ found
    rw [Option.map_some, of_decide_eq_true same]

/-- After any requests, pages and losses from the cache, a stored submission is found, has uploaded bytes
for every entry of its manifest, and is shown the tree of these bytes, whichever of several rows the
database takes, exactly if whatever was first seen last for the version has that tree. -/
theorem submission_shows_own_files_iff (ops : List (ViewerOp B)) (hashes : NoCollision sha256 ops) :
    let s := viewerAfter sha256 extract ops
    ∀ submission ∈ s.submissions,
      SubmissionSource.load s submission.id = some ⟨submission.id⟩ ∧
        ∀ added ∈ submission.manifest,
          (∃ u ∈ s.uploaded, u.submissionId = submission.id ∧ u.added = added) ∧
            ∀ u ∈ s.uploaded, u.submissionId = submission.id → u.added = added →
              ((∀ pick, (SubmissionSource.fetchTree extract ⟨submission.id⟩ s added.worldName added.version
                  pick).1 = extract u.bytes) ↔
                s.NewestAlike extract added.worldName added.version u.bytes) := by
  intro s submission hsub
  have sound : s.Sound sha256 extract (BroughtBy ops) := viewerAfter_sound ops hashes.injOn
  refine ⟨SubmissionSource.load_eq hsub, fun added hadded => ⟨sound.complete submission hsub added hadded, ?_⟩⟩
  rintro u hu - rfl
  constructor
  · intro shown row hrow newest other stored
    obtain ⟨pick, looked⟩ := Viewer.lookup_of_newest hrow newest
    rw [← sound.fetchTree_eq ⟨submission.id⟩ looked stored]
    exact shown pick
  · intro alike pick
    obtain ⟨row, hrow, world, version, -⟩ := sound.seen u hu
    obtain ⟨sha, looked⟩ := Viewer.lookup_isSome (Viewer.mem_rowsOf.mpr ⟨hrow, world, version⟩) pick
    obtain ⟨last, hlast, newest, rfl⟩ := Viewer.newest_of_lookup looked
    obtain ⟨other, stored⟩ := sound.stored last (Viewer.mem_rowsOf.mp hlast).1
    rw [sound.fetchTree_eq ⟨submission.id⟩ looked stored]
    exact alike last hlast newest other stored

end

/-! ## A version that is uploaded again -/

/-- A zip archive without files. -/
def emptyZip : List ℕ := [80, 75, 5, 6] ++ List.replicate 18 0

/-- A zip archive with the file `a`, whose content is `1`. -/
def fileZip : List ℕ :=
  [80, 75, 3, 4, 20, 0, 0, 0, 0, 0, 0, 0, 33, 0, 183, 239, 220, 131, 1, 0, 0, 0, 1, 0, 0, 0, 1, 0, 0, 0, 97,
    49, 80, 75, 1, 2, 20, 0, 20, 0, 0, 0, 0, 0, 0, 0, 33, 0, 183, 239, 220, 131, 1, 0, 0, 0, 1, 0, 0, 0, 1, 0,
    0, 0, 0, 0, 0, 0, 0, 0, 0, 0, 0, 0, 0, 0, 0, 0, 97, 80, 75, 5, 6, 0, 0, 0, 0, 1, 0, 1, 0, 47, 0, 0, 0, 32,
    0, 0, 0, 0, 0]

/-- The SHA-256 of the two archives. -/
def zipSha (bytes : List ℕ) : String :=
  if bytes = emptyZip then "8739c76e681f900923b900c9df0ef75cf421d39cabb54650c4b9ad19b6a76d85"
  else if bytes = fileZip then "37b902771f97be9508ca8fea860a42d1e623759746ccea169252374c704ca22d"
  else ""

/-- The files of the two archives. -/
def zipTree (bytes : List ℕ) : Except String (List (String × String)) :=
  if bytes = emptyZip then .ok []
  else if bytes = fileZip then .ok [("a", "1")]
  else .error ""

/-- The submission of an archive as the version 1.0.0 of a world. -/
def submitZip (bytes : List ℕ) (id : String) (now : ℤ) : ViewerOp (List ℕ) :=
  .submit [⟨"w", "1.0.0"⟩]
    (fun path => if path = "apworlds/w-1.0.0.apworld" then some bytes else none) [(id, now)]

lemma submitZip_brings {bytes : List ℕ} {id : String} {now : ℤ} {other : List ℕ}
    (brings : (submitZip bytes id now).Brings other) : other = bytes := by
  obtain ⟨path, e⟩ := brings
  simp only at e
  split at e
  case isTrue => exact (Option.some.inj e).symm
  case isFalse => cases e

/-- A submission, and an import of the same archive at a later time. -/
def importedLater : List (ViewerOp (List ℕ)) :=
  [.importApworld "w" "1.0.0" (some emptyZip) 7, submitZip emptyZip "s1" 3]

lemma importedLater_noCollision : NoCollision zipSha importedLater := by
  have only : ∀ op ∈ importedLater, ∀ bytes, op.Brings bytes → bytes = emptyZip := by
    intro op mem bytes brings
    rcases List.mem_cons.mp mem with rfl | mem
    · exact (Option.some.inj brings).symm
    · obtain rfl := List.mem_singleton.mp mem
      exact submitZip_brings brings
  intro op hop op' hop' bytes bytes' brings brings' _
  rw [only op hop bytes brings, only op' hop' bytes' brings']

/-- The import changes nothing, and the submission is shown its own files. -/
theorem importedLater_shown :
    ⟨"s1", [⟨"w", "1.0.0"⟩]⟩ ∈ (viewerAfter zipSha zipTree importedLater).submissions ∧
      ∀ pick, (SubmissionSource.fetchTree zipTree ⟨"s1"⟩ (viewerAfter zipSha zipTree importedLater) "w"
        "1.0.0" pick).1 = .ok [] := by
  have rows : (viewerAfter zipSha zipTree importedLater).rowsOf "w" "1.0.0" =
      [⟨"w", "1.0.0", zipSha emptyZip, 3⟩] := by decide
  have blob : (viewerAfter zipSha zipTree importedLater).blobs (zipSha emptyZip) = some emptyZip := by
    decide
  have all := @submission_shows_own_files_iff _ _ zipSha zipTree importedLater importedLater_noCollision
  have own := (all ⟨"s1", [⟨"w", "1.0.0"⟩]⟩ (by decide)).2 ⟨"w", "1.0.0"⟩ (by decide)
  refine ⟨by decide, (own.2 ⟨"s1", ⟨"w", "1.0.0"⟩, emptyZip⟩ (by decide) rfl rfl).mpr ?_⟩
  intro row mem _ other stored
  rw [rows] at mem
  obtain rfl := List.mem_singleton.mp mem
  obtain rfl := Option.some.inj (blob.symm.trans stored)
  rfl

/-- Two submissions of the same version. -/
def submittedAgain : List (ViewerOp (List ℕ)) := [submitZip fileZip "s2" 5, submitZip emptyZip "s1" 3]

/-- The first submission is shown the file of the second. -/
theorem submittedAgain_shows_other :
    ⟨"s1", [⟨"w", "1.0.0"⟩]⟩ ∈ (viewerAfter zipSha zipTree submittedAgain).submissions ∧
      ⟨"s1", ⟨"w", "1.0.0"⟩, emptyZip⟩ ∈ (viewerAfter zipSha zipTree submittedAgain).uploaded ∧
        zipTree emptyZip = .ok [] ∧
          ∀ pick, (SubmissionSource.fetchTree zipTree ⟨"s1"⟩ (viewerAfter zipSha zipTree submittedAgain)
            "w" "1.0.0" pick).1 = .ok [("a", "1")] := by
  have newest : ((viewerAfter zipSha zipTree submittedAgain).rowsOf "w" "1.0.0").filter (fun row =>
      decide (Newest ((viewerAfter zipSha zipTree submittedAgain).rowsOf "w" "1.0.0") row)) =
        [⟨"w", "1.0.0", zipSha fileZip, 5⟩] := by decide
  refine ⟨by decide, by decide, rfl, fun pick => ?_⟩
  have looked : (viewerAfter zipSha zipTree submittedAgain).lookupArtifactSha "w" "1.0.0" pick =
      some (zipSha fileZip) := by
    rw [Viewer.lookupArtifactSha, newest, List.length_singleton, Nat.mod_one]
    rfl
  rw [SubmissionSource.fetchTree, looked]
  rfl

end ArchipelagoXL.Apdiff
