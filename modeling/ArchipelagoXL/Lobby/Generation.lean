import ArchipelagoXL.Lib.Interleave
import ArchipelagoXL.Lobby.Slots

/-!
# A room and its generation

The requests that start, cancel and upload the generation of a room (`lobby/src/views/room/gen.rs`), those
that change the room or its YAMLs (`edit.rs`, `main.rs` and `lobby/src/views/api.rs`) and the callback for
the result of a generation (`lobby/src/jobs.rs`), cut at each access of the database and of the queue, any
number of them at once.

A room has at most one row in `generations`, which names a job. The callback updates the row of the room
whatever job it names, a start inserts its row after its job is queued, and a cancel deletes the row it
finds. While none of these meets the row of another job, the status of the row is that of its own job and no
job is left without a row (`generations_own`).

Validation is left to the environment here: an upload is given the YAMLs it is to add, and a start reads
their status. So are the index and the files of the output.
-/

namespace ArchipelagoXL.Lobby

open Interleave

/-! ## The tables -/

/-- Rust `GenerationStatus`. -/
inductive GenerationStatus where
  | pending
  | running
  | failed
  | done
deriving DecidableEq

/-- Rust `Generation`. -/
structure Generation where
  jobId : ℕ
  status : GenerationStatus
deriving DecidableEq

/-- What the requests use of Rust `Room`; times in nanoseconds. -/
structure RoomRecord (V : Type) where
  apVersion : V
  closeDate : ℤ
  authorId : ℤ
  locked : Bool
  isBundleRoom : Bool
deriving DecidableEq

/-- The row of a YAML in a room. -/
structure RoomYaml (I : Type) extends YamlWithoutContent I where
  ownerId : ℤ
  bundleId : ℕ
  validationStatus : YamlValidationStatus
deriving DecidableEq

/-- A job that `enqueue_gen_job` made, with the version in its `GenerationParams`; and for the record the
YAMLs that the request had read. -/
structure GenerationJob (I V : Type) where
  jobId : ℕ
  apVersion : V
  yamls : List (RoomYaml I)
deriving DecidableEq

/-- The room, its YAMLs, its row in `generations` with the job that its patches are from, the jobs of the
room that are pending or claimed, and the next id of a job; and for the record the jobs that were enqueued,
those of manual uploads, and what workers reported. -/
structure Site (I V : Type) where
  room : RoomRecord V
  yamls : List (RoomYaml I)
  generation : Option Generation
  patches : Option ℕ
  queue : List ℕ
  nextJob : ℕ
  jobs : List (GenerationJob I V)
  manual : List ℕ
  reports : List (ℕ × Wq.JobStatus)

/-- Rust `Room::is_closed`. -/
def RoomRecord.isClosed {V : Type} (self : RoomRecord V) (now : ℤ) : Bool := decide (self.closeDate < now)

/-- The user of a request (Rust `LoggedInSession`). -/
structure UserSession where
  isAdmin : Bool
  userId : ℤ
deriving DecidableEq

/-- Whether the room is the user's. -/
def UserSession.isMyRoom {V : Type} (self : UserSession) (room : RoomRecord V) : Bool :=
  self.isAdmin || self.userId == room.authorId

/-- The status that a result gives the row. -/
def statusOf (status : Wq.JobStatus) : GenerationStatus := if status = .success then .done else .failed

/-! ## The operations -/

/-- What `edit_room_submit` writes to the room, beside the version that it has read. -/
structure RoomForm where
  closeDate : ℤ
  locked : Bool
  isBundleRoom : Bool
deriving DecidableEq

/-- The points of the operations, each before its next access. -/
inductive SiteOp (I V : Type) where
  /-- `gen_room_start`: the room, its YAMLs and its generation are read and checked, the manifest is frozen
  with the index, the job is queued, and the row is inserted. -/
  | startRoom (session : UserSession)
  | startYamls (session : UserSession) (room : RoomRecord V) (closed : Bool)
  | startGeneration (session : UserSession) (room : RoomRecord V) (closed : Bool) (yamls : List (RoomYaml I))
  | startManifest (room : RoomRecord V) (yamls : List (RoomYaml I))
  | startEnqueue (room : RoomRecord V) (yamls : List (RoomYaml I))
  | startInsert (job : GenerationJob I V)
  /-- `gen_room_cancel`. -/
  | cancelRoom (session : UserSession)
  | cancelGeneration
  | cancelJob (jobId : ℕ)
  | cancelDelete (jobId : ℕ)
  /-- `gen_room_manual_upload`; the files are written between the check and the row. -/
  | manualRoom (session : UserSession)
  | manualGeneration
  | manualFiles
  | manualInsert (jobId : ℕ)
  /-- `refresh_gen_patches`, of an upload or a callback: the generation is read, then the patches are
  written. -/
  | patchesGeneration
  | patchesWrite (jobId : ℕ)
  /-- The callback of a result. -/
  | callbackUpdate (jobId : ℕ) (status : Wq.JobStatus)
  /-- `switch_base`, up to the validation of the YAMLs. -/
  | switchRoom (session : UserSession) (target : V) (confirmed : Bool)
  | switchGeneration (target : V) (confirmed : Bool)
  | switchYamls (target : V) (confirmed : Bool)
  | switchCommit (target : V)
  /-- `edit_room_submit`, up to the validation of the YAMLs. -/
  | submitRoom (session : UserSession) (form : RoomForm)
  | submitUpdate (room : RoomRecord V) (form : RoomForm)
  /-- `upload_yaml`. -/
  | uploadRoom
  | uploadAdd
  /-- `delete_bundle`. -/
  | bundleRoom (session : UserSession) (bundleId : ℕ)
  | bundleGet (session : UserSession) (room : RoomRecord V) (bundleId : ℕ)
  | bundleRemove (bundleId : ℕ)
  /-- `delete_yaml`. -/
  | deleteRoom (session : UserSession) (id : I)
  | deleteGet (session : UserSession) (room : RoomRecord V) (id : I)
  /-- `delete_yaml_api`. -/
  | apiRoom (id : I)
  | apiGeneration (id : I)
  | apiGet (id : I)
  /-- `remove_yaml`, of either. -/
  | removeYaml (id : I)

/-- How an operation ended. -/
inductive SiteEnd where
  | ok
  | error (message : String)
  /-- The database, the queue or a file could not be reached. -/
  | unreachable
deriving DecidableEq

/-- A thread: between operations, in one, or just back from one. -/
inductive SiteTask (I V : Type) where
  | idle
  | running (op : SiteOp I V)
  | returned (e : SiteEnd)

/-- What the environment decides. -/
inductive SiteInput (I V : Type) where
  | genRoomStart (session : UserSession)
  | genRoomCancel (session : UserSession)
  | genRoomManualUpload (session : UserSession)
  /-- A worker reports the result of a job, which runs the callback. -/
  | resolveJob (jobId : ℕ) (status : Wq.JobStatus)
  | switchBase (session : UserSession) (target : V) (confirmed : Bool)
  | editRoomSubmit (session : UserSession) (form : RoomForm)
  | uploadYaml
  | deleteBundle (session : UserSession) (bundleId : ℕ)
  | deleteYaml (session : UserSession) (id : I)
  | deleteYamlApi (id : I)
  | go
  | now (t : ℤ)
  /-- The YAMLs of an upload, if they are accepted. -/
  | documents (yamls : List (RoomYaml I))
  | refuse (message : String)
  | fail

/-- Nanoseconds in a minute. -/
def minute : ℤ := 60 * 10 ^ 9

/-- Rust `MAX_DAYS_UNTIL_CLOSE`. -/
def maxDaysUntilClose : ℤ := 183

/-- Rust `validate_close_date`, with what it says against a date. -/
def validateCloseDate (closeDate : ℤ) (current : Option ℤ) (now : ℤ) : Option String :=
  if current.any fun current => current / minute == closeDate / minute then none
  else if now + maxDaysUntilClose * (24 * 60 * minute) < closeDate then
    some ("The submission limit can't be more than 183 days from now, which is about six months.")
  else none

section

variable {I V : Type}

/-- Rust `get_yamls_for_room`: the rows in the order of their ids. -/
def Site.getYamlsForRoom [LinearOrder I] (w : Site I V) : List (RoomYaml I) :=
  w.yamls.insertionSort fun a b => a.id ≤ b.id

/-- The checklist of Rust `get_info_for_gen`, with the first label that is not met; the source has no order
of the labels. -/
def unmetCondition {I : Type} (session : UserSession) (closed : Bool) (yamls : List (RoomYaml I))
    (generation : Option Generation) : Option String :=
  if !closed then some "The room must be closed"
  else if !(yamls.all fun yaml => yaml.validationStatus == .validated) then
    some "All YAMLs files must have been validated"
  else if !((0 < yamls.length && yamls.length ≤ 100) || session.isAdmin) then
    some "The room must contain between 1 and 100 YAMLs"
  else if generation.isSome then some "There must be no generation in progress"
  else none

/-- Whether an upload can't be stored, since it has an id twice or one that is taken. -/
def Site.clashes [DecidableEq I] (w : Site I V) (added : List (RoomYaml I)) : Bool :=
  !decide ((added.map (·.id)).Nodup) || added.any fun yaml => (w.yamls.map (·.id)).contains yaml.id

variable [LinearOrder I] [DecidableEq V]

/-- One step of an operation. -/
def SiteOp.step (w : Site I V) : SiteOp I V → SiteInput I V → Option (Site I V × SiteTask I V)
  | _, .fail => some (w, .returned .unreachable)
  | .startRoom session, .now t =>
    if !session.isMyRoom w.room then
      some (w, .returned (.error "Cannot access generation for a room that isn't yours"))
    else some (w, .running (.startYamls session w.room (w.room.isClosed t)))
  | .startYamls session room closed, .go =>
    some (w, .running (.startGeneration session room closed w.getYamlsForRoom))
  | .startGeneration session room closed yamls, .go =>
    match unmetCondition session closed yamls w.generation with
    | some label => some (w, .returned (.error
        ("Cannot start generation because the following condition isn't met: " ++ label)))
    | none => some (w, .running (.startManifest room yamls))
  | .startManifest room yamls, .go => some (w, .running (.startEnqueue room yamls))
  | .startManifest _ _, .refuse message => some (w, .returned (.error message))
  | .startEnqueue room yamls, .go =>
    let job := ⟨w.nextJob, room.apVersion, yamls⟩
    some ({ w with queue := w.nextJob :: w.queue, nextJob := w.nextJob + 1, jobs := job :: w.jobs },
      .running (.startInsert job))
  | .startInsert job, .go =>
    match w.generation with
    | some _ => some (w, .returned (.error "duplicate key value violates unique constraint"))
    | none => some ({ w with generation := some ⟨job.jobId, .pending⟩ }, .returned .ok)
  | .cancelRoom session, .go =>
    if !session.isMyRoom w.room then
      some (w, .returned (.error "Cannot cancel generation for a room that isn't yours"))
    else some (w, .running .cancelGeneration)
  | .cancelGeneration, .go =>
    match w.generation with
    | none => some (w, .returned (.error "Cannot cancel generation, there's none in progress"))
    | some currentGen => some (w, .running (.cancelJob currentGen.jobId))
  | .cancelJob jobId, .go =>
    some ({ w with queue := w.queue.filter (· ≠ jobId) }, .running (.cancelDelete jobId))
  | .cancelDelete _, .go => some ({ w with generation := none, patches := none }, .returned .ok)
  | .manualRoom session, .go =>
    if !session.isMyRoom w.room then
      some (w, .returned (.error "Cannot upload generation for a room that isn't yours"))
    else some (w, .running .manualGeneration)
  | .manualGeneration, .go =>
    if w.generation.isSome then
      some (w, .returned (.error "Cannot upload a generation while one already exists"))
    else some (w, .running .manualFiles)
  | .manualFiles, .go =>
    some ({ w with nextJob := w.nextJob + 1, manual := w.nextJob :: w.manual },
      .running (.manualInsert w.nextJob))
  | .manualFiles, .refuse message => some (w, .returned (.error message))
  | .manualInsert jobId, .go =>
    match w.generation with
    | some _ => some (w, .returned (.error "duplicate key value violates unique constraint"))
    | none => some ({ w with generation := some ⟨jobId, .done⟩ }, .running .patchesGeneration)
  | .patchesGeneration, .go =>
    match w.generation with
    | none => some (w, .returned (.error "Couldn't find generation for room"))
    | some gen => some (w, .running (.patchesWrite gen.jobId))
  | .patchesWrite jobId, .go => some ({ w with patches := some jobId }, .returned .ok)
  | .patchesWrite _, .refuse message => some (w, .returned (.error message))
  | .callbackUpdate _ status, .go =>
    some ({ w with generation := w.generation.map fun gen => { gen with status := statusOf status } },
      if status = .success then .running .patchesGeneration else .returned .ok)
  | .switchRoom session target confirmed, .go =>
    if !session.isMyRoom w.room then
      some (w, .returned (.error "You're not allowed to edit this room"))
    else if target = w.room.apVersion then some (w, .returned .ok)
    else some (w, .running (.switchGeneration target confirmed))
  | .switchRoom _ _ _, .refuse message => some (w, .returned (.error message))
  | .switchGeneration target confirmed, .go =>
    if w.generation.isSome then
      some (w, .returned (.error "This room has a generation. It can't move to another version."))
    else some (w, .running (.switchYamls target confirmed))
  | .switchYamls target confirmed, .go =>
    -- the page that says what the move does
    if !w.yamls.isEmpty && !confirmed then some (w, .returned .ok)
    else some (w, .running (.switchCommit target))
  | .switchCommit target, .go => some ({ w with room := { w.room with apVersion := target } }, .returned .ok)
  | .submitRoom session form, .now t =>
    if !session.isMyRoom w.room then
      some (w, .returned (.error "You're not allowed to edit this room"))
    else
      match validateCloseDate form.closeDate (some w.room.closeDate) t with
      | some message => some (w, .returned (.error message))
      | none => some (w, .running (.submitUpdate w.room form))
  | .submitRoom _ _, .refuse message => some (w, .returned (.error message))
  | .submitUpdate room form, .go =>
    some ({ w with room := { w.room with
      apVersion := room.apVersion
      closeDate := form.closeDate
      locked := form.locked
      isBundleRoom := form.isBundleRoom } }, .returned .ok)
  | .uploadRoom, .now t =>
    if w.room.isClosed t then some (w, .returned (.error "This room is closed, you're late"))
    else some (w, .running .uploadAdd)
  | .uploadAdd, .documents added =>
    if w.clashes added then
      some (w, .returned (.error "duplicate key value violates unique constraint"))
    else some ({ w with yamls := w.yamls ++ added }, .returned .ok)
  | .uploadAdd, .refuse message => some (w, .returned (.error message))
  | .bundleRoom session bundleId, .now t =>
    if w.room.isClosed t then some (w, .returned (.error "This room is closed, you're late"))
    else some (w, .running (.bundleGet session w.room bundleId))
  | .bundleGet session room bundleId, .go =>
    match w.yamls.find? fun yaml => yaml.bundleId = bundleId with
    | none => some (w, .returned (.error "This YAML bundle does not exist"))
    | some yaml =>
      if yaml.ownerId ≠ session.userId ∧ session.isMyRoom room = false then
        some (w, .returned (.error "Can't delete a YAML bundle that isn't yours"))
      else some (w, .running (.bundleRemove bundleId))
  | .bundleRemove bundleId, .go =>
    some ({ w with yamls := w.yamls.filter fun yaml => yaml.bundleId ≠ bundleId }, .returned .ok)
  | .deleteRoom session id, .now t =>
    if w.room.isClosed t then some (w, .returned (.error "This room is closed, you're late"))
    else some (w, .running (.deleteGet session w.room id))
  | .deleteGet session room id, .go =>
    match w.yamls.find? fun yaml => yaml.id = id with
    | none => some (w, .returned (.error "Record not found"))
    | some yaml =>
      if yaml.ownerId ≠ session.userId ∧ session.isMyRoom room = false then
        some (w, .returned (.error "Can't delete a yaml file that isn't yours"))
      else if room.isBundleRoom && !session.isMyRoom room then
        some (w, .returned (.error
          "Can't delete an individual yaml in a bundled room, delete the whole YAML bundle"))
      else some (w, .running (.removeYaml id))
  | .apiRoom id, .go =>
    if w.room.locked then some (w, .returned (.error "This room is locked"))
    else some (w, .running (.apiGeneration id))
  | .apiGeneration id, .go =>
    if w.generation.isSome then
      some (w, .returned (.error "Cannot delete YAMLs while a generation exists for this room"))
    else some (w, .running (.apiGet id))
  | .apiGet id, .go =>
    if (w.yamls.find? fun yaml => yaml.id = id).isNone then
      some (w, .returned (.error "Couldn't find this YAML in this room"))
    else some (w, .running (.removeYaml id))
  | .removeYaml id, .go =>
    some ({ w with yamls := w.yamls.filter fun yaml => yaml.id ≠ id }, .returned .ok)
  | _, _ => none

/-- The start of an operation. -/
def SiteInput.start (w : Site I V) : SiteInput I V → Option (Site I V × SiteTask I V)
  | .genRoomStart session => some (w, .running (.startRoom session))
  | .genRoomCancel session => some (w, .running (.cancelRoom session))
  | .genRoomManualUpload session => some (w, .running (.manualRoom session))
  | .resolveJob jobId status =>
    -- the claim is gone before the callback runs
    if status.isResolved ∧ (w.jobs.map (·.jobId)).contains jobId then
      some ({ w with queue := w.queue.filter (· ≠ jobId), reports := (jobId, status) :: w.reports },
        .running (.callbackUpdate jobId status))
    else none
  | .switchBase session target confirmed => some (w, .running (.switchRoom session target confirmed))
  | .editRoomSubmit session form => some (w, .running (.submitRoom session form))
  | .uploadYaml => some (w, .running .uploadRoom)
  | .deleteBundle session bundleId => some (w, .running (.bundleRoom session bundleId))
  | .deleteYaml session id => some (w, .running (.deleteRoom session id))
  | .deleteYamlApi id => some (w, .running (.apiRoom id))
  | _ => none

/-- The room as a machine. -/
def siteMachine (I V : Type) [LinearOrder I] [DecidableEq V] : Machine (Site I V) (SiteTask I V) (SiteInput I V) :=
  fun _ w t x =>
    match t with
    | .running op => op.step w x
    | _ => x.start w

/-! ## What a step does -/

/-- Not before a write that goes by the id of a job. -/
def SiteTask.Plain : SiteTask I V → Prop
  | .running (.startInsert _) | .running (.cancelJob _) | .running (.cancelDelete _)
  | .running (.manualInsert _) | .running (.callbackUpdate _ _) => False
  | _ => True

/-- The writes of the operations, and all else that only reads. -/
inductive SiteOp.Does (w : Site I V) : SiteOp I V → SiteInput I V → Site I V → SiteTask I V → Prop where
  | reads {op x t} :
    t.Plain →
    (∀ job, op = .startInsert job → x = .fail ∨ (x = .go ∧ w.generation ≠ none)) →
    Does w op x w t
  | enqueue (room yamls) :
    Does w (.startEnqueue room yamls) .go
      { w with
        queue := w.nextJob :: w.queue
        nextJob := w.nextJob + 1
        jobs := ⟨w.nextJob, room.apVersion, yamls⟩ :: w.jobs }
      (.running (.startInsert ⟨w.nextJob, room.apVersion, yamls⟩))
  | insert (job) :
    w.generation = none →
    Does w (.startInsert job) .go { w with generation := some ⟨job.jobId, .pending⟩ } (.returned .ok)
  | cancelRead {gen} :
    w.generation = some gen →
    Does w .cancelGeneration .go w (.running (.cancelJob gen.jobId))
  | cancel (jobId) :
    Does w (.cancelJob jobId) .go { w with queue := w.queue.filter (· ≠ jobId) }
      (.running (.cancelDelete jobId))
  | delete (jobId) :
    Does w (.cancelDelete jobId) .go { w with generation := none, patches := none } (.returned .ok)
  | files :
    Does w .manualFiles .go { w with nextJob := w.nextJob + 1, manual := w.nextJob :: w.manual }
      (.running (.manualInsert w.nextJob))
  | upload (jobId) :
    w.generation = none →
    Does w (.manualInsert jobId) .go { w with generation := some ⟨jobId, .done⟩ }
      (.running .patchesGeneration)
  | patch (jobId) :
    Does w (.patchesWrite jobId) .go { w with patches := some jobId } (.returned .ok)
  | update (jobId status) {t} :
    t.Plain →
    Does w (.callbackUpdate jobId status) .go
      { w with generation := w.generation.map fun gen => { gen with status := statusOf status } } t
  | commit (target) :
    Does w (.switchCommit target) .go { w with room := { w.room with apVersion := target } } (.returned .ok)
  | submit (room form) :
    Does w (.submitUpdate room form) .go
      { w with room := { w.room with
        apVersion := room.apVersion
        closeDate := form.closeDate
        locked := form.locked
        isBundleRoom := form.isBundleRoom } } (.returned .ok)
  | add (added) :
    w.clashes added = false →
    Does w .uploadAdd (.documents added) { w with yamls := w.yamls ++ added } (.returned .ok)
  | removeBundle (bundleId) :
    Does w (.bundleRemove bundleId) .go
      { w with yamls := w.yamls.filter fun yaml => yaml.bundleId ≠ bundleId } (.returned .ok)
  | remove (id) :
    Does w (.removeYaml id) .go { w with yamls := w.yamls.filter fun yaml => yaml.id ≠ id }
      (.returned .ok)

omit [DecidableEq V] in
/-- Every other operation than an insert that can go on. -/
lemma SiteOp.Does.of_reads {w : Site I V} {op : SiteOp I V} {x : SiteInput I V} {t : SiteTask I V}
    (plain : t.Plain) (other : ∀ job, op ≠ .startInsert job) : op.Does w x w t :=
  .reads plain fun job e => absurd e (other job)

/-- What a step without further input does. -/
lemma SiteOp.step_go {w w' : Site I V} {op : SiteOp I V} {t : SiteTask I V}
    (st : op.step w .go = some (w', t)) : op.Does w .go w' t := by
  cases op with
  | startInsert job =>
    rcases row : w.generation with _ | gen
    · rw [SiteOp.step, row] at st
      cases st
      exact .insert job row
    · rw [SiteOp.step, row] at st
      cases st
      exact .reads trivial fun _ _ => .inr ⟨rfl, by rw [row]; exact Option.some_ne_none gen⟩
  | startEnqueue room yamls =>
    cases st
    exact .enqueue room yamls
  | cancelGeneration =>
    rcases row : w.generation with _ | gen
    · rw [SiteOp.step, row] at st
      cases st
      exact .of_reads trivial fun job e => by cases e
    · rw [SiteOp.step, row] at st
      cases st
      exact .cancelRead row
  | cancelJob jobId =>
    cases st
    exact .cancel jobId
  | cancelDelete jobId =>
    cases st
    exact .delete jobId
  | manualFiles =>
    cases st
    exact .files
  | manualInsert jobId =>
    rcases row : w.generation with _ | gen
    · rw [SiteOp.step, row] at st
      cases st
      exact .upload jobId row
    · rw [SiteOp.step, row] at st
      cases st
      exact .of_reads trivial fun job e => by cases e
  | patchesWrite jobId =>
    cases st
    exact .patch jobId
  | callbackUpdate jobId status =>
    cases st
    apply SiteOp.Does.update
    split
    all_goals trivial
  | switchCommit target =>
    cases st
    exact .commit target
  | submitUpdate room form =>
    cases st
    exact .submit room form
  | bundleRemove bundleId =>
    cases st
    exact .removeBundle bundleId
  | removeYaml id =>
    cases st
    exact .remove id
  | _ =>
    -- the others read and go on, or end
    simp only [SiteOp.step] at st
    repeat' split at st
    all_goals cases st
    all_goals exact .of_reads trivial fun job e => by cases e

lemma SiteOp.step_does {w w' : Site I V} {op : SiteOp I V} {x : SiteInput I V} {t : SiteTask I V}
    (st : op.step w x = some (w', t)) : op.Does w x w' t := by
  cases x with
  | fail =>
    have failed : (w, SiteTask.returned SiteEnd.unreachable) = (w', t) := by
      cases op <;> exact Option.some.inj st
    cases failed
    exact .reads trivial fun _ _ => .inl rfl
  | go => exact SiteOp.step_go st
  | documents added =>
    cases op with
    | uploadAdd =>
      rw [SiteOp.step] at st
      split at st
      case isTrue =>
        cases st
        exact .of_reads trivial fun job e => by cases e
      case isFalse free =>
        cases st
        exact .add added (by simpa using free)
    | _ => cases st
  | now time =>
    cases op
    case startRoom | submitRoom | uploadRoom | bundleRoom | deleteRoom =>
      simp only [SiteOp.step] at st
      repeat' split at st
      all_goals cases st
      all_goals exact .of_reads trivial fun job e => by cases e
    all_goals cases st
  | refuse message =>
    cases op
    case startManifest | manualFiles | patchesWrite | switchRoom | submitRoom | uploadAdd =>
      cases st
      exact .of_reads trivial fun job e => by cases e
    all_goals cases st
  | _ => cases op <;> cases st

omit [LinearOrder I] [DecidableEq V] in
/-- A call that is no result changes nothing. -/
lemma SiteInput.start_cases {w w' : Site I V} {x : SiteInput I V} {t : SiteTask I V}
    (st : x.start w = some (w', t)) :
    (w' = w ∧ t.Plain) ∨ ∃ jobId status, x = .resolveJob jobId status ∧
      w' = { w with queue := w.queue.filter (· ≠ jobId), reports := (jobId, status) :: w.reports } ∧
      t = .running (.callbackUpdate jobId status) := by
  cases x with
  | resolveJob jobId status =>
    rw [SiteInput.start] at st
    split at st
    case isTrue =>
      cases st
      exact .inr ⟨jobId, status, rfl, rfl, rfl⟩
    case isFalse => cases st
  | _ =>
    cases st
    try exact .inl ⟨rfl, trivial⟩

/-! ## Whose job the row names -/

/-- The status is that of a manual upload, or of a result that a worker reported for the job. -/
def Site.OwnOutcome (w : Site I V) (jobId : ℕ) (status : GenerationStatus) : Prop :=
  (jobId ∈ w.manual ∧ status = .done) ∨ ∃ result, (jobId, result) ∈ w.reports ∧ statusOf result = status

/-- The row says of its job what came of it. -/
def Site.StatusOwn (w : Site I V) : Prop :=
  ∀ gen, w.generation = some gen → gen.status = .done ∨ gen.status = .failed →
    w.OwnOutcome gen.jobId gen.status

/-- The row names the job. -/
def Site.Names (w : Site I V) (jobId : ℕ) : Prop := ∃ gen, w.generation = some gen ∧ gen.jobId = jobId

/-- In a request to start, cancel or upload a generation. -/
def SiteTask.InRequest : SiteTask I V → Prop
  | .running (.startRoom _) | .running (.startYamls _ _ _) | .running (.startGeneration _ _ _ _)
  | .running (.startManifest _ _) | .running (.startEnqueue _ _) | .running (.startInsert _)
  | .running (.cancelRoom _) | .running .cancelGeneration | .running (.cancelJob _)
  | .running (.cancelDelete _) | .running (.manualRoom _) | .running .manualGeneration
  | .running .manualFiles | .running (.manualInsert _) => True
  | _ => False

/-- The status of the row is its job's own, and when no request is in progress, the jobs in the queue are
the row's. -/
def GenerationsOwn (s : Conf (Site I V) (SiteTask I V)) : Prop :=
  s.shared.StatusOwn ∧
    ((∀ i, ¬ (s.pc i).InRequest) → ∀ jobId ∈ s.shared.queue, s.shared.Names jobId)

/-- The steps that do not meet the row of another job: a start inserts where there is no row, unless its job
has left the queue; a cancel deletes no row of another job that is in the queue; and a result is written
on no row of another job that did not end the same way. -/
def OwnRows (I V : Type) : Cond (Site I V) (SiteTask I V) (SiteInput I V) :=
  fun _ s i x =>
    match s.pc i, x with
    | .running (.startInsert job), .go => s.shared.generation = none ∨ job.jobId ∉ s.shared.queue
    | .running (.startInsert job), .fail => job.jobId ∉ s.shared.queue
    | .running (.cancelDelete jobId), .go =>
      ∀ gen, s.shared.generation = some gen → gen.jobId = jobId ∨ gen.jobId ∉ s.shared.queue
    | .running (.callbackUpdate jobId status), .go =>
      ∀ gen, s.shared.generation = some gen → gen.jobId = jobId ∨
        s.shared.OwnOutcome gen.jobId (statusOf status)
    | _, _ => True

/-- What a thread knows of the tables. -/
def SiteTask.Knows (w : Site I V) : SiteTask I V → Prop
  | .running (.startInsert job) => job.jobId < w.nextJob
  | .running (.cancelJob jobId) => jobId < w.nextJob
  | .running (.cancelDelete jobId) => jobId < w.nextJob ∧ jobId ∉ w.queue
  | .running (.manualInsert jobId) => jobId < w.nextJob ∧ jobId ∈ w.manual
  | .running (.callbackUpdate jobId status) => (jobId, status) ∈ w.reports
  | _ => True

/-- A start is about to insert the row of the job. -/
def Inserting (s : Conf (Site I V) (SiteTask I V)) (jobId : ℕ) : Prop :=
  ∃ i job, s.pc i = .running (.startInsert job) ∧ job.jobId = jobId

/-- What holds along a run. -/
structure Accounted (s : Conf (Site I V) (SiteTask I V)) : Prop where
  status : s.shared.StatusOwn
  queued : ∀ jobId ∈ s.shared.queue, s.shared.Names jobId ∨ Inserting s jobId
  queueKnown : ∀ jobId ∈ s.shared.queue, jobId < s.shared.nextJob
  rowKnown : ∀ gen, s.shared.generation = some gen → gen.jobId < s.shared.nextJob
  knows : ∀ i, (s.pc i).Knows s.shared

end

section

variable {I V : Type}

/-- The records of jobs grow, and only new jobs come into the queue. -/
structure Site.Later (w w' : Site I V) : Prop where
  nextJob : w.nextJob ≤ w'.nextJob
  manual : ∀ jobId ∈ w.manual, jobId ∈ w'.manual
  reports : ∀ report ∈ w.reports, report ∈ w'.reports
  queue : ∀ jobId ∈ w'.queue, jobId ∈ w.queue ∨ w.nextJob ≤ jobId

lemma Site.Later.refl (w : Site I V) : w.Later w := ⟨le_rfl, fun _ h => h, fun _ h => h, fun _ h => .inl h⟩

lemma Site.OwnOutcome.mono {w w' : Site I V} (later : w.Later w') {jobId : ℕ} {status : GenerationStatus}
    (own : w.OwnOutcome jobId status) : w'.OwnOutcome jobId status := by
  rcases own with ⟨mem, done⟩ | ⟨result, mem, same⟩
  · exact .inl ⟨later.manual _ mem, done⟩
  · exact .inr ⟨result, later.reports _ mem, same⟩

lemma SiteTask.Knows.mono {w w' : Site I V} (later : w.Later w') {t : SiteTask I V} (knows : t.Knows w) :
    t.Knows w' := by
  cases t with
  | idle => trivial
  | returned _ => trivial
  | running op =>
    cases op with
    | startInsert job => exact Nat.lt_of_lt_of_le knows later.nextJob
    | cancelJob jobId => exact Nat.lt_of_lt_of_le knows later.nextJob
    | cancelDelete jobId =>
      obtain ⟨known, notQueued⟩ := knows
      refine ⟨Nat.lt_of_lt_of_le known later.nextJob, fun queued => ?_⟩
      rcases later.queue jobId queued with there | new
      · exact notQueued there
      · omega
    | manualInsert jobId => exact ⟨Nat.lt_of_lt_of_le knows.1 later.nextJob, later.manual _ knows.2⟩
    | callbackUpdate jobId status => exact later.reports _ knows
    | _ => trivial

/-- A status that stays is still that of its job. -/
lemma Site.StatusOwn.mono {w w' : Site I V} (later : w.Later w') (same : w'.generation = w.generation)
    (own : w.StatusOwn) : w'.StatusOwn := by
  intro gen row ended
  rw [same] at row
  exact (own gen row ended).mono later

lemma SiteTask.Plain.knows {t : SiteTask I V} (plain : t.Plain) (w : Site I V) : t.Knows w := by
  cases t with
  | running op => cases op <;> trivial
  | _ => trivial

/-- A start that is about to insert stays so, but for the one that steps. -/
lemma Inserting.move {s : Conf (Site I V) (SiteTask I V)} {i jobId : ℕ} (ins : Inserting s jobId)
    (other : ∀ job, s.pc i = .running (.startInsert job) → job.jobId ≠ jobId) (w' : Site I V)
    (t : SiteTask I V) : Inserting (s.move i w' t) jobId := by
  obtain ⟨k, job, at_, same⟩ := ins
  refine ⟨k, job, ?_, same⟩
  rw [Conf.move_pc_of_ne, at_]
  rintro rfl
  exact other job at_ same

/-- The accounts after a step, from what it leaves of the tables. -/
lemma Accounted.move {s : Conf (Site I V) (SiteTask I V)} {i : ℕ} {w' : Site I V} {t : SiteTask I V}
    (acc : Accounted s) (later : s.shared.Later w') (status : w'.StatusOwn)
    (queued : ∀ jobId ∈ w'.queue, w'.Names jobId ∨ Inserting (s.move i w' t) jobId)
    (queueKnown : ∀ jobId ∈ w'.queue, jobId < w'.nextJob)
    (rowKnown : ∀ gen, w'.generation = some gen → gen.jobId < w'.nextJob) (own : t.Knows w') :
    Accounted (s.move i w' t) := by
  refine ⟨status, queued, queueKnown, rowKnown, fun k => ?_⟩
  rcases s.move_pc i w' t k with ⟨-, at_⟩ | ⟨-, at_⟩
  · rw [at_]
    exact own
  · rw [at_]
    exact (acc.knows k).mono later

/-- The accounts after a step that leaves row and queue alone, of a thread that inserts nothing. -/
lemma Accounted.frame {s : Conf (Site I V) (SiteTask I V)} {i : ℕ} {w' : Site I V} {t : SiteTask I V}
    (acc : Accounted s) (later : s.shared.Later w') (row : w'.generation = s.shared.generation)
    (queue : w'.queue = s.shared.queue) (own : t.Knows w')
    (other : ∀ job, s.pc i = .running (.startInsert job) → job.jobId ∉ s.shared.queue) :
    Accounted (s.move i w' t) := by
  refine acc.move later (acc.status.mono later row) ?_ ?_ ?_ own
  · intro jobId mem
    rw [queue] at mem
    rcases acc.queued jobId mem with named | ins
    · left
      rw [Site.Names, row]
      exact named
    · right
      apply ins.move
      rintro job at_ rfl
      exact other job at_ mem
  · intro jobId mem
    rw [queue] at mem
    exact Nat.lt_of_lt_of_le (acc.queueKnown jobId mem) later.nextJob
  · intro gen h
    rw [row] at h
    exact Nat.lt_of_lt_of_le (acc.rowKnown gen h) later.nextJob

lemma not_names_of_none {w : Site I V} (row : w.generation = none) {jobId : ℕ} : ¬ w.Names jobId := by
  rintro ⟨gen, row', -⟩
  cases row.symm.trans row'

/-- A room without a generation, and nothing going on. -/
def Site.fresh (room : RoomRecord V) (yamls : List (RoomYaml I)) : Conf (Site I V) (SiteTask I V) :=
  ⟨⟨room, yamls, none, none, [], 0, [], [], []⟩, fun _ => .idle⟩

variable [LinearOrder I]

/-- An operation keeps the accounts. -/
lemma Accounted.op {tr : List (Event (SiteTask I V) (SiteInput I V))} {s : Conf (Site I V) (SiteTask I V)}
    {i : ℕ} {op : SiteOp I V} {x : SiteInput I V} {w' : Site I V} {t : SiteTask I V} (acc : Accounted s)
    (at_ : s.pc i = .running op) (cond : OwnRows I V tr s i x) (does : op.Does s.shared x w' t) :
    Accounted (s.move i w' t) := by
  have knows := acc.knows i
  rw [at_] at knows
  have noInsert : (∀ job, op ≠ .startInsert job) →
      ∀ job, s.pc i = .running (.startInsert job) → job.jobId ∉ s.shared.queue := by
    intro other job at_'
    exact absurd (SiteTask.running.inj (at_.symm.trans at_')) (other job)
  cases does with
  | reads plain blocked =>
    refine acc.frame (Site.Later.refl _) rfl rfl (plain.knows _) ?_
    intro job at_'
    obtain rfl : op = .startInsert job := SiteTask.running.inj (at_.symm.trans at_')
    rcases blocked job rfl with rfl | ⟨rfl, row⟩
    · simp only [OwnRows, at_] at cond
      exact cond
    · simp only [OwnRows, at_] at cond
      exact cond.resolve_left row
  | enqueue room yamls =>
    have later : s.shared.Later { s.shared with
        queue := s.shared.nextJob :: s.shared.queue
        nextJob := s.shared.nextJob + 1
        jobs := ⟨s.shared.nextJob, room.apVersion, yamls⟩ :: s.shared.jobs } := by
      refine ⟨Nat.le_succ _, fun _ h => h, fun _ h => h, fun jobId mem => ?_⟩
      rcases List.mem_cons.mp mem with rfl | mem
      · exact .inr le_rfl
      · exact .inl mem
    refine acc.move later (acc.status.mono later rfl) ?_ ?_ ?_ (Nat.lt_succ_self _)
    · intro jobId mem
      rcases List.mem_cons.mp mem with rfl | mem
      · exact .inr ⟨i, _, Conf.move_pc_self s i _ _, rfl⟩
      · refine (acc.queued jobId mem).imp id fun ins => ins.move ?_ _ _
        intro job at_'
        cases at_.symm.trans at_'
    · intro jobId mem
      rcases List.mem_cons.mp mem with rfl | mem
      · exact Nat.lt_succ_self _
      · exact Nat.lt_succ_of_lt (acc.queueKnown jobId mem)
    · exact fun gen row => Nat.lt_succ_of_lt (acc.rowKnown gen row)
  | insert job row =>
    have later : s.shared.Later { s.shared with generation := some ⟨job.jobId, .pending⟩ } :=
      ⟨le_rfl, fun _ h => h, fun _ h => h, fun _ h => .inl h⟩
    refine acc.move later ?_ ?_ acc.queueKnown ?_ trivial
    · intro gen row' ended
      obtain rfl := Option.some.inj row'
      rcases ended with ended | ended
      all_goals cases ended
    · intro jobId mem
      obtain ⟨k, job', atk, same⟩ := (acc.queued jobId mem).resolve_left (not_names_of_none row)
      by_cases own : k = i
      · subst own
        obtain rfl : job = job' := SiteOp.startInsert.inj (SiteTask.running.inj (at_.symm.trans atk))
        exact .inl ⟨_, rfl, same⟩
      · refine .inr ⟨k, job', ?_, same⟩
        rw [Conf.move_pc_of_ne own, atk]
    · intro gen row'
      obtain rfl := Option.some.inj row'
      exact knows
  | cancelRead row => 
    exact acc.frame (Site.Later.refl _) rfl rfl (acc.rowKnown _ row) (noInsert fun _ e => by cases e)
  | cancel jobId =>
    have later : s.shared.Later { s.shared with queue := s.shared.queue.filter (· ≠ jobId) } :=
      ⟨le_rfl, fun _ h => h, fun _ h => h, fun _ h => .inl (List.mem_of_mem_filter h)⟩
    refine acc.move later (acc.status.mono later rfl) ?_ ?_ acc.rowKnown ⟨knows, by simp⟩
    · intro jobId' mem
      refine (acc.queued jobId' (List.mem_of_mem_filter mem)).imp id fun ins => ins.move ?_ _ _
      intro job at_'
      cases at_.symm.trans at_'
    · exact fun jobId' mem => acc.queueKnown jobId' (List.mem_of_mem_filter mem)
  | delete jobId =>
    have later : s.shared.Later { s.shared with generation := none, patches := none } :=
      ⟨le_rfl, fun _ h => h, fun _ h => h, fun _ h => .inl h⟩
    refine acc.move later (fun gen row => by cases row) ?_ acc.queueKnown (fun gen row => by cases row) trivial
    intro jobId' mem
    right
    rcases acc.queued jobId' mem with ⟨gen, row, rfl⟩ | ins
    · -- the row that is deleted does not name a job in the queue
      simp only [OwnRows, at_] at cond
      rcases cond gen row with own | notQueued
      · exact absurd (own ▸ mem) knows.2
      · exact absurd mem notQueued
    · apply ins.move
      intro job at_'
      cases at_.symm.trans at_'
  | files =>
    have later : s.shared.Later { s.shared with
        nextJob := s.shared.nextJob + 1
        manual := s.shared.nextJob :: s.shared.manual } :=
      ⟨Nat.le_succ _, fun _ h => List.mem_cons_of_mem _ h, fun _ h => h, fun _ h => .inl h⟩
    exact acc.frame later rfl rfl ⟨Nat.lt_succ_self _, List.mem_cons_self⟩ (noInsert fun _ e => by cases e)
  | upload jobId row =>
    have later : s.shared.Later { s.shared with generation := some ⟨jobId, .done⟩ } :=
      ⟨le_rfl, fun _ h => h, fun _ h => h, fun _ h => .inl h⟩
    refine acc.move later ?_ ?_ acc.queueKnown ?_ trivial
    · intro gen row' _
      obtain rfl := Option.some.inj row'
      exact .inl ⟨knows.2, rfl⟩
    · intro jobId' mem
      have ins := (acc.queued jobId' mem).resolve_left (not_names_of_none row)
      refine .inr (ins.move ?_ _ _)
      intro job at_'
      cases at_.symm.trans at_'
    · intro gen row'
      obtain rfl := Option.some.inj row'
      exact knows.1
  | patch jobId =>
    exact acc.frame ⟨le_rfl, fun _ h => h, fun _ h => h, fun _ h => .inl h⟩ rfl rfl trivial
      (noInsert fun _ e => by cases e)
  | update jobId status plain =>
    have later : s.shared.Later { s.shared with
        generation := s.shared.generation.map fun gen => { gen with status := statusOf status } } :=
      ⟨le_rfl, fun _ h => h, fun _ h => h, fun _ h => .inl h⟩
    refine acc.move later ?_ ?_ acc.queueKnown ?_ (plain.knows _)
    · intro gen' row' _
      obtain ⟨gen, row, rfl⟩ := Option.map_eq_some_iff.mp row'
      simp only [OwnRows, at_] at cond
      rcases cond gen row with own | sameOutcome
      · exact .inr ⟨status, own ▸ knows, rfl⟩
      · exact sameOutcome.mono later
    · intro jobId' mem
      rcases acc.queued jobId' mem with ⟨gen, row, same⟩ | ins
      · exact .inl ⟨_, Option.map_eq_some_iff.mpr ⟨gen, row, rfl⟩, same⟩
      · refine .inr (ins.move ?_ _ _)
        intro job at_'
        cases at_.symm.trans at_'
    · intro gen' row'
      obtain ⟨gen, row, rfl⟩ := Option.map_eq_some_iff.mp row'
      exact acc.rowKnown gen row
  | commit target =>
    exact acc.frame ⟨le_rfl, fun _ h => h, fun _ h => h, fun _ h => .inl h⟩ rfl rfl trivial
      (noInsert fun _ e => by cases e)
  | submit room form =>
    exact acc.frame ⟨le_rfl, fun _ h => h, fun _ h => h, fun _ h => .inl h⟩ rfl rfl trivial
      (noInsert fun _ e => by cases e)
  | add added _ =>
    exact acc.frame ⟨le_rfl, fun _ h => h, fun _ h => h, fun _ h => .inl h⟩ rfl rfl trivial
      (noInsert fun _ e => by cases e)
  | removeBundle bundleId =>
    exact acc.frame ⟨le_rfl, fun _ h => h, fun _ h => h, fun _ h => .inl h⟩ rfl rfl trivial
      (noInsert fun _ e => by cases e)
  | remove id =>
    exact acc.frame ⟨le_rfl, fun _ h => h, fun _ h => h, fun _ h => .inl h⟩ rfl rfl trivial
      (noInsert fun _ e => by cases e)

omit [LinearOrder I] in
/-- A call keeps the accounts. -/
lemma Accounted.start {s : Conf (Site I V) (SiteTask I V)} {i : ℕ} {x : SiteInput I V} {w' : Site I V}
    {t : SiteTask I V} (acc : Accounted s) (idle : ∀ op, s.pc i ≠ .running op)
    (st : x.start s.shared = some (w', t)) : Accounted (s.move i w' t) := by
  have noInsert : ∀ job, s.pc i = .running (.startInsert job) → job.jobId ∉ s.shared.queue :=
    fun job at_ => absurd at_ (idle _)
  rcases SiteInput.start_cases st with ⟨rfl, plain⟩ | ⟨jobId, status, -, rfl, rfl⟩
  · exact acc.frame (Site.Later.refl _) rfl rfl (plain.knows _) noInsert
  · have later : s.shared.Later { s.shared with
        queue := s.shared.queue.filter (· ≠ jobId)
        reports := (jobId, status) :: s.shared.reports } :=
      ⟨le_rfl, fun _ h => h, fun _ h => List.mem_cons_of_mem _ h, fun _ h => .inl (List.mem_of_mem_filter h)⟩
    refine acc.move later (acc.status.mono later rfl) ?_ ?_ acc.rowKnown List.mem_cons_self
    · intro jobId' mem
      refine (acc.queued jobId' (List.mem_of_mem_filter mem)).imp id fun ins => ins.move ?_ _ _
      exact fun job at_ => absurd at_ (idle _)
    · exact fun jobId' mem => acc.queueKnown jobId' (List.mem_of_mem_filter mem)

variable [DecidableEq V]

/-- While no step meets the row of another job, the status of the row is its job's own, and when no request
is in progress, each job in the queue is the row's. -/
theorem generations_own {room : RoomRecord V} {yamls : List (RoomYaml I)} {tr s}
    (run : Run (siteMachine I V) (OwnRows I V) (Site.fresh room yamls) tr s) : GenerationsOwn s := by
  have acc : Accounted s := by
    refine run.invariant (I := fun _ s => Accounted s) ?_ ?_
    · exact ⟨fun gen row => (by cases row), fun jobId mem => (by cases mem), fun jobId mem => (by cases mem),
        fun gen row => (by cases row), fun i => trivial⟩
    · intro tr s i x w t acc cond st
      rcases at_ : s.pc i with _ | op | e
      · rw [at_] at st
        exact acc.start (fun op h => by rw [at_] at h; cases h) st
      · rw [at_] at st
        exact acc.op at_ cond (SiteOp.step_does st)
      · rw [at_] at st
        exact acc.start (fun op h => by rw [at_] at h; cases h) st
  refine ⟨acc.status, fun quiet jobId mem => ?_⟩
  apply (acc.queued jobId mem).resolve_right
  rintro ⟨i, job, at_, -⟩
  apply quiet i
  rw [at_]
  trivial

end

/-! ## Two starts, and one -/

/-- A closed room with one validated YAML. -/
def closedRoom : Conf (Site ℕ ℕ) (SiteTask ℕ ℕ) :=
  Site.fresh ⟨6, 0, 1, false, false⟩ [⟨⟨0, "Bob", none⟩, 1, 0, .validated⟩]

/-- A request to start the generation, up to the insert of its row. -/
def starting (i : ℕ) : List (ℕ × SiteInput ℕ ℕ) :=
  [(i, .genRoomStart ⟨false, 1⟩), (i, .now 1), (i, .go), (i, .go), (i, .go), (i, .go)]

/-- Two requests find no generation, and the second insert fails. -/
def twoStarts : List (ℕ × SiteInput ℕ ℕ) := starting 0 ++ starting 1 ++ [(0, .go), (1, .go)]

/-- The thread is in no operation. -/
def SiteTask.isResting {I V : Type} : SiteTask I V → Bool
  | .running _ => false
  | _ => true

lemma not_inRequest_of_isResting {I V : Type} {t : SiteTask I V} (rest : t.isResting = true) : ¬ t.InRequest := by
  cases t with
  | running op => cases rest
  | _ => exact id

/-- A worker's result for the second job, too, is then written on the row of the first. -/
def twoStartsResult : List (ℕ × SiteInput ℕ ℕ) := twoStarts ++ [(2, .resolveJob 1 .failure), (2, .go)]

/-- The job of the second start is left in the queue, and its result is taken for that of the first. -/
theorem generations_not_own :
    (∃ tr s, Run (siteMachine ℕ ℕ) Cond.any closedRoom tr s ∧ (∀ i, ¬ (s.pc i).InRequest) ∧
      ∃ jobId ∈ s.shared.queue, ¬ s.shared.Names jobId) ∧
    ∃ tr s, Run (siteMachine ℕ ℕ) Cond.any closedRoom tr s ∧ ¬ s.shared.StatusOwn := by
  constructor
  · refine ⟨_, _, exec_run_any (l := twoStarts) (by decide), fun i => ?_, 1, by decide, ?_⟩
    · apply not_inRequest_of_isResting
      exact finalOf_forall (P := fun _ (t : SiteTask ℕ ℕ) => t.isResting = true) (b := 2) (fun _ => rfl)
        (by decide) (by decide) i
    · rintro ⟨gen, row, same⟩
      have first : (finalOf (siteMachine ℕ ℕ) closedRoom twoStarts).shared.generation =
          some ⟨0, .pending⟩ := by decide
      obtain rfl := Option.some.inj (first.symm.trans row)
      cases same
  · refine ⟨_, _, exec_run_any (l := twoStartsResult) (by decide), fun own => ?_⟩
    have row : (finalOf (siteMachine ℕ ℕ) closedRoom twoStartsResult).shared.generation =
        some ⟨0, .failed⟩ := by decide
    have manual : (finalOf (siteMachine ℕ ℕ) closedRoom twoStartsResult).shared.manual = [] := by decide
    have reports : (finalOf (siteMachine ℕ ℕ) closedRoom twoStartsResult).shared.reports =
        [(1, .failure)] := by decide
    rcases own _ row (.inr rfl) with ⟨mem, -⟩ | ⟨result, mem, -⟩
    · rw [manual] at mem
      cases mem
    · rw [reports] at mem
      cases List.mem_singleton.mp mem

/-- Rows are only met by their own jobs. -/
def ownRowsOnly (s : Conf (Site ℕ ℕ) (SiteTask ℕ ℕ)) (i : ℕ) (x : SiteInput ℕ ℕ) : Bool :=
  match s.pc i, x with
  | .running (.startInsert _), .go => s.shared.generation == none
  | .running (.startInsert _), .fail => false
  | .running (.cancelDelete jobId), .go | .running (.callbackUpdate jobId _), .go =>
    s.shared.generation.all fun gen => gen.jobId == jobId
  | _, _ => true

lemma ownRows_of_only {tr : List (Event (SiteTask ℕ ℕ) (SiteInput ℕ ℕ))} {s : Conf (Site ℕ ℕ) (SiteTask ℕ ℕ)}
    {i : ℕ} {x : SiteInput ℕ ℕ} (h : ownRowsOnly s i x = true) : OwnRows ℕ ℕ tr s i x := by
  unfold OwnRows
  split
  case h_1 job at_ =>
    simp only [ownRowsOnly, at_, beq_iff_eq] at h
    exact .inl h
  case h_2 job at_ => simp [ownRowsOnly, at_] at h
  case h_3 jobId at_ =>
    intro gen row
    simp only [ownRowsOnly, at_, row, Option.all_some, beq_iff_eq] at h
    exact .inl h
  case h_4 jobId status at_ =>
    intro gen row
    simp only [ownRowsOnly, at_, row, Option.all_some, beq_iff_eq] at h
    exact .inl h
  case h_5 => trivial

/-- A generation that is started, fails, is canceled and started again. -/
def startedAgain : List (ℕ × SiteInput ℕ ℕ) :=
  starting 0 ++ [(0, .go), (1, .resolveJob 0 .failure), (1, .go), (0, .genRoomCancel ⟨false, 1⟩), (0, .go),
    (0, .go), (0, .go), (0, .go)] ++ starting 0 ++ [(0, .go)]

/-- After that the new job is in the queue and named by the row. -/
theorem startedAgain_own :
    (finalOf (siteMachine ℕ ℕ) closedRoom startedAgain).shared.queue = [1] ∧
      GenerationsOwn (finalOf (siteMachine ℕ ℕ) closedRoom startedAgain) :=
  ⟨by decide, generations_own (exec_run_checked ownRows_of_only (by decide))⟩

end ArchipelagoXL.Lobby
