import ArchipelagoXL.Lib.Interleave
import ArchipelagoXL.Lobby.Validation

/-!
# A room that moves to another version

The requests that give the YAMLs of a room a status: `switch_base` and `edit_room_submit`
(`lobby/src/views/room/edit.rs`), `upload_yaml` (`lobby/src/views/room/main.rs`), `edit_yaml` and
`retry_yaml` (`lobby/src/views/api.rs`), with `queue_yaml_validation` (`lobby/src/yaml.rs`) that some of them
call, and the callback for the result of a validation (`lobby/src/jobs.rs`). They are cut at each access of
the database and of the queue, any number of them at once, in a room whose `yaml_validation` is on.

`edit_room_submit` queues the YAMLs in one transaction: until it ends, the rows that it has written are as
before for others, who can't write them.

A status is to be one for the version that the room is on. A version is read when a request starts, and only
the callback compares it again, before its write. While no step writes a success for another version, what is
validated was validated on the room's version (`validated_on_room_version`).

What needs the index or the user is left to the environment: the releases for a game, the resolved index, and
what a request is refused for.
-/

namespace ArchipelagoXL.Lobby

open Interleave

/-! ## The tables -/

/-- What the requests use of the record of a room whose `yaml_validation` is on. -/
structure ValidatingRoom (V : Type) where
  apVersion : V
  locked : Bool
  allowInvalidYamls : Bool
deriving DecidableEq

/-- The record with its `yaml_validation`. -/
def ValidatingRoom.toRoom {V : Type} (room : ValidatingRoom V) : Room V :=
  ⟨room.apVersion, room.locked, true, room.allowInvalidYamls⟩

/-- What `edit_room_submit` writes to the room, beside the version that it has read. -/
structure SettingsForm where
  locked : Bool
  allowInvalidYamls : Bool

/-- The room, its YAMLs in the order of their rows, and the jobs with what workers reported on them, by number
of the job. `dirty` has the rows that a transaction has written so far, and `locks` their ids. For the record,
the job that the status of a row is from, and the last time that was read. -/
structure Versioned (I V : Type) where
  room : ValidatingRoom V
  ids : List I
  yamls : I → Option (Yaml V)
  dirty : I → Option (Yaml V)
  locks : List I
  jobs : List (ValidationJob I V)
  reports : List (ℕ × ValidationResult)
  source : I → Option ℕ
  clock : ℕ

/-- Rust `YamlValidationJobResult`. -/
inductive YamlValidationJobResult (V : Type) where
  | success (apworlds : List (String × V))
  | failure (apworlds : List (String × V)) (error : String)
  | unsupported (games : List String)

/-- A document of an upload with what came of its validation (Rust `YamlValidationResult`), and the job. -/
structure CheckedYaml (V : Type) where
  document : String
  gameName : String
  playerName : String
  status : YamlValidationStatus
  apworlds : List (String × V)
  error : Option String
  source : Option ℕ

/-- An upload: the room that it has read, the documents that are validated, and those that are not yet. -/
structure Upload (V : Type) where
  room : ValidatingRoom V
  done : List (CheckedYaml V)
  rest : List (String × YamlFile)

/-! ## The operations -/

/-- The points of `queue_yaml_validation` for a YAML that was read. -/
inductive QueueStep (I V : Type) where
  | lookUp (id : I) (y : Yaml V)
  | settle (id : I) (status : YamlValidationStatus) (error : String)
  | reset (id : I) (content : String) (apworlds : List (String × V))
  | enqueue (id : I) (content : String) (apworlds : List (String × V))

/-- The points of the operations, each before its next access. -/
inductive VersionOp (lib : YamlLib) (I V : Type) where
  /-- `switch_base`: the room, its generation and its YAMLs are read; version and statuses are written at
  once, the room is read again, and the YAMLs are queued. -/
  | switchRoom (target : V) (confirmed : Bool)
  | switchGeneration (target : V) (confirmed : Bool)
  | switchYamls (target : V) (confirmed : Bool)
  | switchCommit (target : V) (yamls : List (I × Yaml V))
  | switchReread (yamls : List (I × Yaml V))
  /-- `edit_room_submit`: the room is read and written, the YAMLs and the index are read, and those that may
  not be as they were are queued in a transaction. -/
  | submitRoom (form : SettingsForm)
  | submitUpdate (room : ValidatingRoom V) (form : SettingsForm)
  | submitYamls (room : ValidatingRoom V)
  | submitIndex (room : ValidatingRoom V) (yamls : List (I × Yaml V))
  | submitEnd (written : List I)
  /-- `retry_yaml`. -/
  | retryRoom (id : I)
  | retryYaml (id : I) (room : ValidatingRoom V)
  /-- `queue_yaml_validation` of one YAML, with those that are to be queued after it, and the rows that were
  written if in a transaction. -/
  | queue (room : ValidatingRoom V) (q : QueueStep I V) (rest : List (I × Yaml V)) (written : Option (List I))
  /-- `upload_yaml`: the room and its YAMLs are read, each document is validated by a job of its own, and
  they are inserted at once. -/
  | uploadRoom (texts : List String)
  | uploadYamls (room : ValidatingRoom V) (documents : List (String × YamlFile))
  | uploadApworlds (u : Upload V) (document : String × YamlFile) (gameName : String)
  | uploadEnqueue (u : Upload V) (document : String × YamlFile) (gameName : String)
    (apworlds : List (String × V))
  | uploadWait (u : Upload V) (document : String × YamlFile) (gameName : String)
    (apworlds : List (String × V)) (job : ℕ)
  | uploadInsert (u : Upload V)
  /-- `edit_yaml`. -/
  | editRoom (id : I) (req : EditYamlRequest)
  | editYaml (id : I) (req : EditYamlRequest) (room : ValidatingRoom V)
  | editApworlds (e : Edit lib I V)
  | editEnqueue (e : Edit lib I V) (apworlds : List (String × V))
  | editWait (e : Edit lib I V) (apworlds : List (String × V)) (job : ℕ)
  | editWrite (e : Edit lib I V) (status : YamlValidationStatus) (apworlds : List (String × V))
    (error : Option String) (source : Option ℕ)
  /-- The callback. -/
  | callbackRead (n : ℕ) (job : ValidationJob I V) (r : ValidationResult) (id : I)
  | callbackVersion (n : ℕ) (job : ValidationJob I V) (r : ValidationResult) (id : I)
  | callbackWrite (n : ℕ) (job : ValidationJob I V) (r : ValidationResult) (id : I)

/-- How an operation ended; the callback with whether the result is to be deleted. -/
inductive VersionEnd where
  | ok
  | processed (cleanup : Bool)
  | error (message : String)
  /-- The database or the queue could not be reached. -/
  | unreachable
deriving DecidableEq

/-- A thread: between operations, in one, or just back from one. -/
inductive VersionTask (lib : YamlLib) (I V : Type) where
  | idle
  | running (op : VersionOp lib I V)
  | returned (e : VersionEnd)

/-- What can be called, and a worker's report on a job, which runs the callback. -/
inductive VersionRequest (I V : Type) where
  | switchBase (target : V) (confirmed : Bool)
  | editRoomSubmit (form : SettingsForm)
  | retryYaml (id : I)
  | uploadYaml (texts : List String)
  | editYaml (id : I) (req : EditYamlRequest)
  | resolve (job : ℕ) (r : ValidationResult)

/-- What the environment decides. -/
inductive VersionGiven (I V : Type) where
  | call (c : VersionRequest I V)
  | go
  | refuse (message : String)
  /-- The releases for the games of a YAML, or the games that have none. -/
  | apworlds (r : Except (List String) (List (String × V)))
  /-- The releases of the room's index, and whether it has a world that was not there before. -/
  | index (resolved : List (String × V)) (newWorldsAvailable : Bool)
  | now (t : ℕ)
  /-- The ids of new rows, and the time of the insert. -/
  | rows (t : ℕ) (ids : List I)
  | report (r : ValidationResult)
  | fail

/-- The time that a step reads. -/
def VersionGiven.time {I V : Type} : VersionGiven I V → Option ℕ
  | .now t | .rows t _ => some t
  | _ => none

section

variable {lib : YamlLib} {I V : Type}

/-- What `validate_yaml` makes of the status of its job. -/
def jobResult (apworlds : List (String × V)) (r : ValidationResult) :
    Except String (YamlValidationJobResult V) :=
  match r.status with
  | .success => .ok (.success apworlds)
  | .failure => .ok (.failure apworlds ((r.result.bind fun e => e).getD "Internal Error"))
  | _ => .error ("Internal error while validating this YAML. This should not happen, please report the " ++
      "bug.")

/-- What an upload or an edit stores of a validation, or what it says against a failed one. -/
def YamlValidationJobResult.stored (allowInvalidYamls : Bool) (refusal : String → String) :
    YamlValidationJobResult V → Except String (YamlValidationStatus × List (String × V) × Option String)
  | .success apworlds => .ok (.validated, apworlds, none)
  | .failure apworlds error =>
    if allowInvalidYamls then .ok (.failed, apworlds, some error) else .error (refusal error)
  | .unsupported games => .ok (.unsupported, [], some (unsupportedError games))

/-- The new row of a document. -/
def CheckedYaml.toYaml (c : CheckedYaml V) (t : ℕ) : Yaml V where
  content := c.document
  editedContent := none
  game := c.gameName
  playerName := c.playerName
  validationStatus := c.status
  apworlds := c.apworlds
  lastValidationTime := toTimestamp t
  lastError := c.error
  lastEdited := none

/-- Rust `should_revalidate_yaml`. -/
def shouldRevalidateYaml [DecidableEq V] (y : Yaml V) (resolvedIndex : List (String × V))
    (newWorldsAvailable : Bool) : Bool :=
  if y.apworlds.isEmpty then
    if y.validationStatus = .unsupported then newWorldsAvailable else true
  else y.apworlds.any fun apworld => resolvedIndex.lookup apworld.1 ≠ some apworld.2

/-- The next document of an upload, or the insert. -/
def Upload.next (u : Upload V) : VersionTask lib I V :=
  match u.rest with
  | [] => .running (.uploadInsert u)
  | document :: rest =>
    match validateGame document.2.game with
    | .error e => .returned (.error e)
    | .ok gameName => .running (.uploadApworlds { u with rest := rest } document gameName)

/-- An upload goes on with what came of a document. -/
def Upload.checked (u : Upload V) (document : String × YamlFile) (gameName : String) (source : Option ℕ)
    (result : YamlValidationJobResult V) : VersionTask lib I V :=
  match result.stored u.room.allowInvalidYamls id with
  | .error e => .returned (.error e)
  | .ok (status, apworlds, error) =>
    Upload.next { u with
      done := u.done ++ [⟨document.1, gameName, document.2.name, status, apworlds, error, source⟩] }

/-- An edit goes on with what came of its document. -/
def Edit.checked (e : Edit lib I V) (source : Option ℕ) (result : YamlValidationJobResult V) :
    VersionTask lib I V :=
  match result.stored e.room.allowInvalidYamls ("Validation failed: " ++ ·) with
  | .error e => .returned (.error e)
  | .ok (status, apworlds, error) => .running (.editWrite e status apworlds error source)

/-- The next YAML that is to be queued, or the end of the transaction if there is one. -/
def nextYaml (room : ValidatingRoom V) (written : Option (List I)) : List (I × Yaml V) → VersionTask lib I V
  | [] =>
    match written with
    | none => .returned .ok
    | some written => .running (.submitEnd written)
  | (id, y) :: rest =>
    match lib.readYaml y.currentContent with
    | .error _ =>
      .running (.queue room (.settle id .failed "Internal error: YAML content could not be reparsed") rest
        written)
    | .ok _ => .running (.queue room (.lookUp id y) rest written)

/-- Rust `get_yamls_for_room`. -/
def Versioned.getYamlsForRoom (w : Versioned I V) : List (I × Yaml V) :=
  w.ids.filterMap fun id => (w.yamls id).map fun y => (id, y)

variable [DecidableEq I]

/-- An update of a row, in a transaction or not; who comes to a row that a transaction has written has to
wait. -/
def Versioned.update (w : Versioned I V) (written : Option (List I)) (id : I) (f : Yaml V → Yaml V) :
    Option (Versioned I V) :=
  if w.locks.contains id then none
  else if written.isSome then
    some { w with
      dirty := Function.update w.dirty id ((w.yamls id).map f)
      locks := id :: w.locks }
  else some { w with yamls := Function.update w.yamls id ((w.yamls id).map f) }

/-- The rows that a transaction has written are there for all. -/
def Versioned.commit (w : Versioned I V) (written : List I) : Versioned I V :=
  { w with
    yamls := fun id => if written.contains id then (w.dirty id).or (w.yamls id) else w.yamls id
    dirty := fun id => if written.contains id then none else w.dirty id
    locks := w.locks.filter fun id => !written.contains id }

/-- The rows that a transaction has written are dropped. -/
def Versioned.rollback (w : Versioned I V) (written : List I) : Versioned I V :=
  { w with
    dirty := fun id => if written.contains id then none else w.dirty id
    locks := w.locks.filter fun id => !written.contains id }

/-- A new job. -/
def Versioned.enqueue (w : Versioned I V) (params : YamlValidationParams I V) (t : ℕ) : Versioned I V :=
  { w with jobs := w.jobs ++ [⟨params, t⟩], clock := t }

/-- The rows of an upload. -/
def Versioned.insert (w : Versioned I V) (rows : List (I × CheckedYaml V)) (t : ℕ) : Versioned I V :=
  { w with
    ids := w.ids ++ rows.map Prod.fst
    yamls := fun id => (rows.lookup id).elim (w.yamls id) fun c => some (c.toYaml t)
    source := fun id => (rows.lookup id).elim (w.source id) (·.source)
    clock := t }

/-- Whether an upload can't be inserted, since it has an id twice or one that is taken. -/
def Versioned.clashes (w : Versioned I V) (ids : List I) : Bool :=
  !decide ids.Nodup || ids.any fun id => (w.yamls id).isSome

variable [DecidableEq V]

/-- One step of `queue_yaml_validation`. -/
def QueueStep.step (w : Versioned I V) (room : ValidatingRoom V) (rest : List (I × Yaml V))
    (written : Option (List I)) :
    QueueStep I V → VersionGiven I V → Option (Versioned I V × VersionTask lib I V)
  | .lookUp id y, .apworlds r =>
    match r with
    | .ok apworlds => some (w, .running (.queue room (.reset id y.currentContent apworlds) rest written))
    | .error games =>
      -- nothing has changed
      if y.validationStatus = .unsupported then some (w, nextYaml room written rest)
      else some (w, .running (.queue room (.settle id .unsupported (unsupportedError games)) rest written))
  | .settle id status error, .now t =>
    (w.update written id (·.updateStatus status (some error) [] t)).map fun w' =>
      ({ w' with clock := t }, nextYaml room (written.map (id :: ·)) rest)
  | .reset id content apworlds, .go =>
    (w.update written id Yaml.resetStatus).map fun w' =>
      (w', .running (.queue room (.enqueue id content apworlds) rest (written.map (id :: ·))))
  | .enqueue id content apworlds, .now t =>
    some (w.enqueue ⟨apworlds, content, some id, some room.apVersion⟩ t, nextYaml room written rest)
  | _, _ => none

/-- One step of an operation. -/
def VersionOp.step (w : Versioned I V) :
    VersionOp lib I V → VersionGiven I V → Option (Versioned I V × VersionTask lib I V)
  | .queue _ _ _ (some written), .fail | .submitEnd written, .fail =>
    some (w.rollback written, .returned .unreachable)
  | _, .fail => some (w, .returned .unreachable)
  | .switchRoom target confirmed, .go =>
    if target = w.room.apVersion then some (w, .returned .ok)
    else some (w, .running (.switchGeneration target confirmed))
  | .switchGeneration target confirmed, .go => some (w, .running (.switchYamls target confirmed))
  | .switchYamls target confirmed, .go =>
    -- the page that says what the move does
    if !w.getYamlsForRoom.isEmpty && !confirmed then some (w, .returned .ok)
    else some (w, .running (.switchCommit target w.getYamlsForRoom))
  | .switchCommit target yamls, .go =>
    if w.locks.isEmpty then
      some ({ w with
          room := { w.room with apVersion := target }
          yamls := fun id => (w.yamls id).map Yaml.resetStatus },
        .running (.switchReread yamls))
    else none
  | .switchReread yamls, .go =>
    some (w, nextYaml w.room none (yamls.map fun row => (row.1, row.2.resetStatus)))
  | .submitRoom form, .go => some (w, .running (.submitUpdate w.room form))
  | .submitUpdate room form, .go =>
    let new : ValidatingRoom V := ⟨room.apVersion, form.locked, form.allowInvalidYamls⟩
    some ({ w with room := new }, .running (.submitYamls new))
  | .submitYamls room, .go => some (w, .running (.submitIndex room w.getYamlsForRoom))
  | .submitIndex room yamls, .index resolved newWorldsAvailable =>
    some (w, nextYaml room (some [])
      (yamls.filter fun row => shouldRevalidateYaml row.2 resolved newWorldsAvailable))
  | .submitEnd written, .go => some (w.commit written, .returned .ok)
  | .retryRoom id, .go => some (w, .running (.retryYaml id w.room))
  | .retryYaml id room, .go =>
    match w.yamls id with
    | none => some (w, .returned (.error "Couldn't find this YAML in this room"))
    | some y => some (w, nextYaml room none [(id, y)])
  | .queue room q rest written, x => q.step w room rest written x
  | .uploadRoom texts, .go =>
    match parseRawYamls lib texts with
    | .error e => some (w, .returned (.error e))
    | .ok documents => some (w, .running (.uploadYamls w.room documents))
  | .uploadYamls room documents, .go => some (w, Upload.next ⟨room, [], documents⟩)
  | .uploadApworlds u document gameName, .apworlds r =>
    match r with
    | .ok apworlds => some (w, .running (.uploadEnqueue u document gameName apworlds))
    | .error games => some (w, u.checked document gameName none (.unsupported games))
  | .uploadEnqueue u document gameName apworlds, .now t =>
    -- this job names no YAML: the callback leaves its result to the upload
    some (w.enqueue ⟨apworlds, document.1, none, some u.room.apVersion⟩ t,
      .running (.uploadWait u document gameName apworlds w.jobs.length))
  | .uploadWait u document gameName apworlds job, .report r =>
    if w.reports.contains (job, r) then
      match jobResult apworlds r with
      | .error e => some (w, .returned (.error e))
      | .ok result => some (w, u.checked document gameName (some job) result)
    else none
  | .uploadInsert u, .rows t ids =>
    if ids.length ≠ u.done.length then none
    else if w.clashes ids then
      some (w, .returned (.error "duplicate key value violates unique constraint"))
    else some (w.insert (ids.zip u.done) t, .returned .ok)
  | .editRoom id req, .go =>
    if w.room.locked then some (w, .returned (.error "This room is locked"))
    else some (w, .running (.editYaml id req w.room))
  | .editYaml id req room, .go =>
    match w.yamls id with
    | none => some (w, .returned (.error "Couldn't find this YAML in this room"))
    | some y =>
      match checkEdit lib id y room.toRoom req with
      | .error e => some (w, .returned (.error e))
      | .ok e => some (w, .running (.editApworlds e))
  | .editApworlds e, .apworlds r =>
    match r with
    | .ok apworlds => some (w, .running (.editEnqueue e apworlds))
    | .error games => some (w, e.checked none (.unsupported games))
  | .editEnqueue e apworlds, .now t =>
    some (w.enqueue ⟨apworlds, e.document, none, some e.room.apVersion⟩ t,
      .running (.editWait e apworlds w.jobs.length))
  | .editWait e apworlds job, .report r =>
    if w.reports.contains (job, r) then
      match jobResult apworlds r with
      | .error e => some (w, .returned (.error e))
      | .ok result => some (w, e.checked (some job) result)
    else none
  | .editWrite e status apworlds error source, .now t =>
    (w.update none e.id (·.updateEditedContent e.req.content e.gameName e.name status apworlds error
      (e.req.editedBy, e.req.editedByName, toTimestamp t))).map fun w' =>
        ({ w' with source := Function.update w.source e.id source, clock := t }, .returned .ok)
  | .callbackRead n job r id, .go =>
    match w.yamls id with
    | none => some (w, .returned (.processed true))
    | some y =>
      if y.olderJob job then some (w, .returned (.processed true))
      else if job.params.apVersion.isSome then some (w, .running (.callbackVersion n job r id))
      else some (w, .running (.callbackWrite n job r id))
  | .callbackVersion n job r id, .go =>
    if job.otherVersion w.room.apVersion then some (w, .returned (.processed true))
    else some (w, .running (.callbackWrite n job r id))
  | .callbackWrite n job r id, .go =>
    (w.update none id (·.record job r)).map fun w' =>
      ({ w' with source := Function.update w.source id (some n) }, .returned (.processed true))
  | .switchRoom _ _, .refuse message | .switchGeneration _ _, .refuse message
  | .switchYamls _ _, .refuse message | .submitRoom _, .refuse message
  | .submitIndex _ _, .refuse message | .retryYaml _ _, .refuse message
  | .uploadRoom _, .refuse message | .uploadYamls _ _, .refuse message
  | .uploadApworlds _ _ _, .refuse message | .uploadWait _ _ _ _ _, .refuse message
  | .uploadInsert _, .refuse message | .editWait _ _ _, .refuse message
  | .editWrite _ _ _ _ _, .refuse message => some (w, .returned (.error message))
  | _, _ => none

/-- The start of an operation. -/
def VersionRequest.start (w : Versioned I V) :
    VersionRequest I V → Option (Versioned I V × VersionTask lib I V)
  | .switchBase target confirmed => some (w, .running (.switchRoom target confirmed))
  | .editRoomSubmit form => some (w, .running (.submitRoom form))
  | .retryYaml id => some (w, .running (.retryRoom id))
  | .uploadYaml texts => some (w, .running (.uploadRoom texts))
  | .editYaml id req => some (w, .running (.editRoom id req))
  | .resolve n r =>
    -- a job is resolved once
    if (w.reports.map Prod.fst).contains n then none
    else
      match w.jobs[n]? with
      | none => none
      | some job =>
        let w' := { w with reports := (n, r) :: w.reports }
        match job.params.yamlId with
        | none => some (w', .returned (.processed false))
        | some id => some (w', .running (.callbackRead n job r id))

/-- The room as a machine. -/
def versionMachine (lib : YamlLib) (I V : Type) [DecidableEq I] [DecidableEq V] :
    Machine (Versioned I V) (VersionTask lib I V) (VersionGiven I V) :=
  fun _ w t x =>
    match t, x with
    | .running op, x => op.step w x
    | _, .call c => c.start w
    | _, _ => none

/-- A room without YAMLs, and nothing going on. -/
def Versioned.fresh (lib : YamlLib) (I : Type) (room : ValidatingRoom V) :
    Conf (Versioned I V) (VersionTask lib I V) :=
  ⟨⟨room, [], fun _ => none, fun _ => none, [], [], [], fun _ => none, 0⟩, fun _ => .idle⟩

end

/-! ## What a thread knows -/

section

variable {lib : YamlLib} {I V : Type}

/-- A worker reported that the job is a success, which is for the version and with the releases. -/
def Versioned.Backs (w : Versioned I V) (n : ℕ) (version : V) (apworlds : List (String × V)) : Prop :=
  ∃ job r, w.jobs[n]? = some job ∧ (n, r) ∈ w.reports ∧ r.status = .success ∧
    job.params.apVersion = some version ∧ job.params.apworlds = apworlds

/-- A status that is stored is known, and one that says validated is backed by a job. -/
def Versioned.BacksStatus (w : Versioned I V) (version : V) (status : YamlValidationStatus)
    (apworlds : List (String × V)) (source : Option ℕ) : Prop :=
  status ≠ .unknown ∧ (status = .validated → ∃ n, source = some n ∧ w.Backs n version apworlds)

/-- The job is for the version and with the releases. -/
def Versioned.Waits (w : Versioned I V) (n : ℕ) (version : V) (apworlds : List (String × V)) : Prop :=
  ∃ job, w.jobs[n]? = some job ∧ job.params.apVersion = some version ∧ job.params.apworlds = apworlds

/-- The documents of an upload that are validated are backed. -/
def Upload.Known (w : Versioned I V) (u : Upload V) : Prop :=
  ∀ c ∈ u.done, w.BacksStatus u.room.apVersion c.status c.apworlds c.source

/-- What an operation knows of the tables. -/
def VersionOp.Knows (w : Versioned I V) : VersionOp lib I V → Prop
  | .queue _ (.settle _ status _) _ _ => status ≠ .validated ∧ status ≠ .unknown
  | .uploadApworlds u _ _ | .uploadEnqueue u _ _ _ | .uploadInsert u => u.Known w
  | .uploadWait u _ _ apworlds n => u.Known w ∧ w.Waits n u.room.apVersion apworlds
  | .editWait e apworlds n => w.Waits n e.room.apVersion apworlds
  | .editWrite e status apworlds _ source => w.BacksStatus e.room.apVersion status apworlds source
  | .callbackRead n job r id | .callbackVersion n job r id | .callbackWrite n job r id =>
    w.jobs[n]? = some job ∧ (n, r) ∈ w.reports ∧ job.params.yamlId = some id
  | _ => True

/-- What a thread knows of the tables. -/
def VersionTask.Knows (w : Versioned I V) : VersionTask lib I V → Prop
  | .running op => op.Knows w
  | _ => True

/-- Jobs and reports are only added. -/
def Versioned.Grows (w w' : Versioned I V) : Prop :=
  (∀ (n : ℕ) (job : ValidationJob I V), w.jobs[n]? = some job → w'.jobs[n]? = some job) ∧
    ∀ report ∈ w.reports, report ∈ w'.reports

lemma Versioned.Grows.refl (w : Versioned I V) : w.Grows w := ⟨fun _ _ h => h, fun _ h => h⟩

lemma Versioned.grows_enqueue (w : Versioned I V) (params : YamlValidationParams I V) (t : ℕ) :
    w.Grows (w.enqueue params t) := by
  refine ⟨fun n job there => ?_, fun _ h => h⟩
  show (w.jobs ++ [⟨params, t⟩])[n]? = some job
  rw [List.getElem?_append_left (List.getElem?_eq_some_iff.mp there).1, there]

lemma Versioned.Backs.mono {w w' : Versioned I V} (grows : w.Grows w') {n : ℕ} {version : V}
    {apworlds : List (String × V)} (backs : w.Backs n version apworlds) : w'.Backs n version apworlds := by
  obtain ⟨job, r, there, reported, rest⟩ := backs
  exact ⟨job, r, grows.1 n job there, grows.2 _ reported, rest⟩

lemma Versioned.BacksStatus.mono {w w' : Versioned I V} (grows : w.Grows w') {version : V}
    {status : YamlValidationStatus} {apworlds : List (String × V)} {source : Option ℕ}
    (backs : w.BacksStatus version status apworlds source) :
    w'.BacksStatus version status apworlds source := by
  refine ⟨backs.1, fun valid => ?_⟩
  obtain ⟨n, from_, job⟩ := backs.2 valid
  exact ⟨n, from_, job.mono grows⟩

lemma Versioned.Waits.mono {w w' : Versioned I V} (grows : w.Grows w') {n : ℕ} {version : V}
    {apworlds : List (String × V)} (waits : w.Waits n version apworlds) : w'.Waits n version apworlds := by
  obtain ⟨job, there, rest⟩ := waits
  exact ⟨job, grows.1 n job there, rest⟩

lemma Upload.Known.mono {w w' : Versioned I V} (grows : w.Grows w') {u : Upload V} (known : u.Known w) :
    u.Known w' :=
  fun c mem => (known c mem).mono grows

/-- What is known stays so. -/
lemma VersionTask.Knows.mono {w w' : Versioned I V} (grows : w.Grows w') {t : VersionTask lib I V}
    (knows : t.Knows w) : t.Knows w' := by
  cases t with
  | idle => trivial
  | returned _ => trivial
  | running op =>
    cases op with
    | queue _ q _ _ =>
      cases q with
      | settle _ _ _ => exact knows
      | _ => trivial
    | uploadApworlds _ _ _ => exact Upload.Known.mono grows knows
    | uploadEnqueue _ _ _ _ => exact Upload.Known.mono grows knows
    | uploadInsert _ => exact Upload.Known.mono grows knows
    | uploadWait _ _ _ _ _ => exact ⟨Upload.Known.mono grows knows.1, knows.2.mono grows⟩
    | editWait _ _ _ => exact Versioned.Waits.mono grows knows
    | editWrite _ _ _ _ _ => exact Versioned.BacksStatus.mono grows knows
    | callbackRead _ _ _ _ => exact ⟨grows.1 _ _ knows.1, grows.2 _ knows.2.1, knows.2.2⟩
    | callbackVersion _ _ _ _ => exact ⟨grows.1 _ _ knows.1, grows.2 _ knows.2.1, knows.2.2⟩
    | callbackWrite _ _ _ _ => exact ⟨grows.1 _ _ knows.1, grows.2 _ knows.2.1, knows.2.2⟩
    | _ => trivial

/-- What a queue comes to next needs nothing. -/
lemma nextYaml_knows (w : Versioned I V) (room : ValidatingRoom V) (written : Option (List I))
    (rest : List (I × Yaml V)) : (nextYaml room written rest : VersionTask lib I V).Knows w := by
  unfold nextYaml
  split
  · split
    · trivial
    · trivial
  · split
    · exact ⟨YamlValidationStatus.noConfusion, YamlValidationStatus.noConfusion⟩
    · trivial

lemma Upload.next_knows {w : Versioned I V} {u : Upload V} (known : u.Known w) :
    (u.next : VersionTask lib I V).Knows w := by
  unfold Upload.next
  split
  · exact known
  · split
    · trivial
    · exact known

/-- What is stored of a result is backed by its job. -/
lemma YamlValidationJobResult.stored_backed {w : Versioned I V} {version : V} {source : Option ℕ}
    {result : YamlValidationJobResult V} {allowInvalidYamls : Bool} {refusal : String → String}
    {status : YamlValidationStatus} {apworlds : List (String × V)} {error : Option String}
    (backed : ∀ apworlds, result = .success apworlds → ∃ n, source = some n ∧ w.Backs n version apworlds)
    (ok : result.stored allowInvalidYamls refusal = .ok (status, apworlds, error)) :
    w.BacksStatus version status apworlds source := by
  cases result with
  | success apworlds' =>
    cases ok
    exact ⟨YamlValidationStatus.noConfusion, fun _ => backed _ rfl⟩
  | failure apworlds' error' =>
    rw [YamlValidationJobResult.stored] at ok
    split at ok
    · cases ok
      exact ⟨YamlValidationStatus.noConfusion, fun valid => by cases valid⟩
    · cases ok
  | unsupported games =>
    cases ok
    exact ⟨YamlValidationStatus.noConfusion, fun valid => by cases valid⟩

/-- A job's success is the worker's. -/
lemma jobResult_backed {w : Versioned I V} {n : ℕ} {version : V} {apworlds : List (String × V)}
    (waits : w.Waits n version apworlds) {r : ValidationResult} (reported : (n, r) ∈ w.reports)
    {result : YamlValidationJobResult V} (ok : jobResult apworlds r = .ok result) :
    ∀ apworlds', result = .success apworlds' → ∃ k, some n = some k ∧ w.Backs k version apworlds' := by
  rintro apworlds' rfl
  obtain ⟨job, there, rest⟩ := waits
  unfold jobResult at ok
  split at ok
  · rename_i success
    cases ok
    exact ⟨n, rfl, job, r, there, reported, success, rest⟩
  · cases ok
  · cases ok

lemma Upload.checked_knows {w : Versioned I V} {u : Upload V} {document : String × YamlFile} {gameName : String}
    {source : Option ℕ} {result : YamlValidationJobResult V} (known : u.Known w)
    (backed : ∀ apworlds, result = .success apworlds →
      ∃ n, source = some n ∧ w.Backs n u.room.apVersion apworlds) :
    (u.checked document gameName source result : VersionTask lib I V).Knows w := by
  unfold Upload.checked
  split
  · trivial
  · rename_i ok
    refine Upload.next_knows fun c mem => ?_
    rcases List.mem_append.mp mem with mem | mem
    · exact known c mem
    · rw [List.mem_singleton.mp mem]
      exact YamlValidationJobResult.stored_backed backed ok

lemma Edit.checked_knows {w : Versioned I V} {e : Edit lib I V} {source : Option ℕ}
    {result : YamlValidationJobResult V}
    (backed : ∀ apworlds, result = .success apworlds →
      ∃ n, source = some n ∧ w.Backs n e.room.apVersion apworlds) :
    (e.checked source result).Knows w := by
  unfold Edit.checked
  split
  · trivial
  · rename_i ok
    exact YamlValidationJobResult.stored_backed backed ok

variable [DecidableEq I]

/-- An update in no transaction, or in one. -/
lemma Versioned.update_cases {w w' : Versioned I V} {written : Option (List I)} {id : I} {f : Yaml V → Yaml V}
    (st : w.update written id f = some w') :
    id ∉ w.locks ∧
      ((written = none ∧ w' = { w with yamls := Function.update w.yamls id ((w.yamls id).map f) }) ∨
        ((∃ l, written = some l) ∧ w' = { w with
          dirty := Function.update w.dirty id ((w.yamls id).map f)
          locks := id :: w.locks })) := by
  rw [Versioned.update] at st
  split at st
  case isTrue => cases st
  case isFalse free =>
    refine ⟨by simpa using free, ?_⟩
    cases written with
    | none =>
      cases st
      exact .inl ⟨rfl, rfl⟩
    | some l =>
      cases st
      exact .inr ⟨⟨l, rfl⟩, rfl⟩

/-- The row that an update leaves, from the one it found. -/
lemma updated_row {rows : I → Option (Yaml V)} {row : Option (Yaml V)} {id k : I} {f : Yaml V → Yaml V}
    {y' : Yaml V} (there : Function.update rows id (row.map f) k = some y') :
    (k ≠ id ∧ rows k = some y') ∨ k = id ∧ ∃ y, row = some y ∧ y' = f y := by
  by_cases e : k = id
  · subst e
    rw [Function.update_self, Option.map_eq_some_iff] at there
    obtain ⟨y, found, rfl⟩ := there
    exact .inr ⟨rfl, y, found, rfl⟩
  · rw [Function.update_of_ne e] at there
    exact .inl ⟨e, there⟩

/-! ## What a step does -/

/-- Not on the way to the status of a YAML that may be waiting for it: no queue, no transaction, and no
callback. -/
def VersionOp.Aside : VersionOp lib I V → Prop
  | .switchReread _ | .queue _ _ _ _ | .submitEnd _ | .callbackRead _ _ _ _ | .callbackVersion _ _ _ _
  | .callbackWrite _ _ _ _ => False
  | _ => True

/-- What a step does: the writes, the steps of a queue and of a callback, and all else that only reads. -/
inductive VersionOp.Does (w : Versioned I V) :
    VersionOp lib I V → VersionGiven I V → Versioned I V → VersionTask lib I V → Prop where
  | fails {op} : Does w op .fail w (.returned .unreachable)
  | rollback {op} (written) :
    (op = .submitEnd written ∨ ∃ room q rest, op = .queue room q rest (some written)) →
    Does w op .fail (w.rollback written) (.returned .unreachable)
  | reads {op x t} :
    op.Aside →
    (op.Knows w → t.Knows w) →
    Does w op x w t
  | asks {op t} (params) (time) :
    op.Aside →
    params.yamlId = none →
    (op.Knows w → t.Knows (w.enqueue params time)) →
    Does w op (.now time) (w.enqueue params time) t
  | commit (target yamls) :
    w.locks = [] →
    Does w (.switchCommit target yamls) .go
      { w with
        room := { w.room with apVersion := target }
        yamls := fun id => (w.yamls id).map Yaml.resetStatus }
      (.running (.switchReread yamls))
  | reread (yamls) :
    Does w (.switchReread yamls) .go w
      (nextYaml w.room none (yamls.map fun row => (row.1, row.2.resetStatus)))
  | submit (room form) :
    Does w (.submitUpdate room form) .go
      { w with room := ⟨room.apVersion, form.locked, form.allowInvalidYamls⟩ }
      (.running (.submitYamls ⟨room.apVersion, form.locked, form.allowInvalidYamls⟩))
  | finish (written) : Does w (.submitEnd written) .go (w.commit written) (.returned .ok)
  | found (room id y rest written apworlds) :
    Does w (.queue room (.lookUp id y) rest written) (.apworlds (.ok apworlds)) w
      (.running (.queue room (.reset id y.currentContent apworlds) rest written))
  | skip (room id y rest written games) :
    y.validationStatus = .unsupported →
    Does w (.queue room (.lookUp id y) rest written) (.apworlds (.error games)) w
      (nextYaml room written rest)
  | missing (room id y rest written games) :
    Does w (.queue room (.lookUp id y) rest written) (.apworlds (.error games)) w
      (.running (.queue room (.settle id .unsupported (unsupportedError games)) rest written))
  | settle (room id status error rest written time) {w₁} :
    w.update written id (·.updateStatus status (some error) [] time) = some w₁ →
    Does w (.queue room (.settle id status error) rest written) (.now time) { w₁ with clock := time }
      (nextYaml room (written.map (id :: ·)) rest)
  | reset (room id content apworlds rest written) {w₁} :
    w.update written id Yaml.resetStatus = some w₁ →
    Does w (.queue room (.reset id content apworlds) rest written) .go w₁
      (.running (.queue room (.enqueue id content apworlds) rest (written.map (id :: ·))))
  | enqueue (room id content apworlds rest written time) :
    Does w (.queue room (.enqueue id content apworlds) rest written) (.now time)
      (w.enqueue ⟨apworlds, content, some id, some room.apVersion⟩ time) (nextYaml room written rest)
  | insert (u time ids) :
    ids.length = u.done.length →
    w.clashes ids = false →
    Does w (.uploadInsert u) (.rows time ids) (w.insert (ids.zip u.done) time) (.returned .ok)
  | edit (e status apworlds error source time) {w₁} :
    w.update none e.id (·.updateEditedContent e.req.content e.gameName e.name status apworlds error
      (e.req.editedBy, e.req.editedByName, toTimestamp time)) = some w₁ →
    Does w (.editWrite e status apworlds error source) (.now time)
      { w₁ with source := Function.update w.source e.id source, clock := time } (.returned .ok)
  | gone (n job r id) :
    w.yamls id = none →
    Does w (.callbackRead n job r id) .go w (.returned (.processed true))
  | older (n job r id) {y} :
    w.yamls id = some y →
    y.olderJob job = true →
    Does w (.callbackRead n job r id) .go w (.returned (.processed true))
  | newer (n job r id) :
    Does w (.callbackRead n job r id) .go w (.running (.callbackVersion n job r id))
  | unversioned (n job r id) :
    Does w (.callbackRead n job r id) .go w (.running (.callbackWrite n job r id))
  | other (n job r id) :
    job.params.apVersion ≠ some w.room.apVersion →
    Does w (.callbackVersion n job r id) .go w (.returned (.processed true))
  | same (n job r id) :
    Does w (.callbackVersion n job r id) .go w (.running (.callbackWrite n job r id))
  | record (n job r id) {w₁} :
    w.update none id (·.record job r) = some w₁ →
    Does w (.callbackWrite n job r id) .go { w₁ with source := Function.update w.source id (some n) }
      (.returned (.processed true))

lemma QueueStep.step_does {w w' : Versioned I V} {room : ValidatingRoom V} {q : QueueStep I V}
    {rest : List (I × Yaml V)} {written : Option (List I)} {x : VersionGiven I V} {t : VersionTask lib I V}
    (st : q.step w room rest written x = some (w', t)) :
    (VersionOp.queue room q rest written).Does w x w' t := by
  unfold QueueStep.step at st
  split at st
  case h_1 =>
    split at st
    · cases st
      exact .found _ _ _ _ _ _
    · split at st
      case isTrue unsupported =>
        cases st
        exact .skip _ _ _ _ _ _ unsupported
      case isFalse =>
        cases st
        exact .missing _ _ _ _ _ _
  case h_2 =>
    obtain ⟨w₁, upd, e⟩ := Option.map_eq_some_iff.mp st
    cases e
    exact .settle _ _ _ _ _ _ _ upd
  case h_3 =>
    obtain ⟨w₁, upd, e⟩ := Option.map_eq_some_iff.mp st
    cases e
    exact .reset _ _ _ _ _ _ upd
  case h_4 =>
    cases st
    exact .enqueue _ _ _ _ _ _ _
  case h_5 => cases st

variable [DecidableEq V]

omit [DecidableEq I] in
/-- A job that is found to be for another version is not for the room's. -/
lemma ValidationJob.otherVersion_ne {job : ValidationJob I V} {version : V}
    (other : job.otherVersion version = true) : job.params.apVersion ≠ some version := by
  intro same
  simp [ValidationJob.otherVersion, same] at other

/-- What a step without further input does. -/
lemma VersionOp.step_go {w w' : Versioned I V} {op : VersionOp lib I V} {t : VersionTask lib I V}
    (st : op.step w .go = some (w', t)) : op.Does w .go w' t := by
  cases op with
  | switchCommit target yamls =>
    rw [VersionOp.step] at st
    split at st
    case isTrue free =>
      cases st
      exact .commit target yamls (by simpa using free)
    case isFalse => cases st
  | switchReread yamls =>
    cases st
    exact .reread yamls
  | submitUpdate room form =>
    cases st
    exact .submit room form
  | submitEnd written =>
    cases st
    exact .finish written
  | queue room q rest written => exact QueueStep.step_does (by cases written <;> exact st)
  | retryYaml id room =>
    rw [VersionOp.step] at st
    split at st
    all_goals cases st
    · exact .reads trivial fun _ => trivial
    · exact .reads trivial fun _ => nextYaml_knows _ _ _ _
  | uploadYamls room documents =>
    cases st
    exact .reads trivial fun _ => Upload.next_knows fun c mem => by cases mem
  | callbackRead n job r id =>
    rw [VersionOp.step] at st
    split at st
    case h_1 row =>
      cases st
      exact .gone n job r id row
    case h_2 y row =>
      split at st
      case isTrue older =>
        cases st
        exact .older n job r id row older
      case isFalse =>
        split at st
        all_goals cases st
        · exact .newer n job r id
        · exact .unversioned n job r id
  | callbackVersion n job r id =>
    rw [VersionOp.step] at st
    split at st
    case isTrue other =>
      cases st
      exact .other n job r id (ValidationJob.otherVersion_ne other)
    case isFalse =>
      cases st
      exact .same n job r id
  | callbackWrite n job r id =>
    obtain ⟨w₁, upd, e⟩ := Option.map_eq_some_iff.mp st
    cases e
    exact .record n job r id upd
  | _ =>
    -- the others read and go on, or end
    simp only [VersionOp.step] at st
    repeat' split at st
    all_goals cases st
    all_goals exact .reads trivial fun _ => trivial

lemma VersionOp.step_fail {w w' : Versioned I V} {op : VersionOp lib I V} {t : VersionTask lib I V}
    (st : op.step w .fail = some (w', t)) : op.Does w .fail w' t := by
  cases op with
  | queue room q rest written =>
    cases written with
    | none =>
      cases st
      exact .fails
    | some written =>
      cases st
      exact .rollback written (.inr ⟨room, q, rest, rfl⟩)
  | submitEnd written =>
    cases st
    exact .rollback written (.inl rfl)
  | _ =>
    cases st
    exact .fails

lemma VersionOp.step_now {w w' : Versioned I V} {op : VersionOp lib I V} {time : ℕ} {t : VersionTask lib I V}
    (st : op.step w (.now time) = some (w', t)) : op.Does w (.now time) w' t := by
  cases op with
  | queue room q rest written => exact QueueStep.step_does (by cases written <;> exact st)
  | uploadEnqueue u document gameName apworlds =>
    cases st
    refine .asks _ _ trivial rfl fun known => ⟨Upload.Known.mono (w.grows_enqueue _ _) known, ?_⟩
    exact ⟨_, List.getElem?_concat_length, rfl, rfl⟩
  | editEnqueue e apworlds =>
    cases st
    exact .asks _ _ trivial rfl fun _ => ⟨_, List.getElem?_concat_length, rfl, rfl⟩
  | editWrite e status apworlds error source =>
    obtain ⟨w₁, upd, same⟩ := Option.map_eq_some_iff.mp st
    cases same
    exact .edit e status apworlds error source time upd
  | _ => cases st

lemma VersionOp.step_apworlds {w w' : Versioned I V} {op : VersionOp lib I V}
    {r : Except (List String) (List (String × V))} {t : VersionTask lib I V}
    (st : op.step w (.apworlds r) = some (w', t)) : op.Does w (.apworlds r) w' t := by
  cases op with
  | queue room q rest written => exact QueueStep.step_does (by cases written <;> exact st)
  | uploadApworlds u document gameName =>
    cases r with
    | ok apworlds =>
      cases st
      exact .reads trivial id
    | error games =>
      cases st
      exact .reads trivial fun known => Upload.checked_knows known fun _ e => by cases e
  | editApworlds e =>
    cases r with
    | ok apworlds =>
      cases st
      exact .reads trivial fun _ => trivial
    | error games =>
      cases st
      exact .reads trivial fun _ => Edit.checked_knows fun _ e => by cases e
  | _ => cases st

lemma VersionOp.step_report {w w' : Versioned I V} {op : VersionOp lib I V} {r : ValidationResult}
    {t : VersionTask lib I V} (st : op.step w (.report r) = some (w', t)) : op.Does w (.report r) w' t := by
  cases op with
  | queue room q rest written => exact QueueStep.step_does (by cases written <;> exact st)
  | uploadWait u document gameName apworlds n =>
    rw [VersionOp.step] at st
    split at st
    case isTrue reported =>
      split at st
      case h_1 =>
        cases st
        exact .reads trivial fun _ => trivial
      case h_2 ok =>
        cases st
        refine .reads trivial fun known => Upload.checked_knows known.1 ?_
        exact jobResult_backed known.2 (by simpa using reported) ok
    case isFalse => cases st
  | editWait e apworlds n =>
    rw [VersionOp.step] at st
    split at st
    case isTrue reported =>
      split at st
      case h_1 =>
        cases st
        exact .reads trivial fun _ => trivial
      case h_2 ok =>
        cases st
        refine .reads trivial fun waits => Edit.checked_knows ?_
        exact jobResult_backed waits (by simpa using reported) ok
    case isFalse => cases st
  | _ => cases st

lemma VersionOp.step_does {w w' : Versioned I V} {op : VersionOp lib I V} {x : VersionGiven I V}
    {t : VersionTask lib I V} (st : op.step w x = some (w', t)) : op.Does w x w' t := by
  cases x with
  | fail => exact VersionOp.step_fail st
  | go => exact VersionOp.step_go st
  | now time => exact VersionOp.step_now st
  | apworlds r => exact VersionOp.step_apworlds st
  | report r => exact VersionOp.step_report st
  | index resolved newWorldsAvailable =>
    cases op with
    | submitIndex room yamls =>
      cases st
      exact .reads trivial fun _ => nextYaml_knows _ _ _ _
    | queue room q rest written => exact QueueStep.step_does (by cases written <;> exact st)
    | _ => cases st
  | rows time ids =>
    cases op with
    | uploadInsert u =>
      rw [VersionOp.step] at st
      split at st
      case isTrue => cases st
      case isFalse length =>
        split at st
        case isTrue =>
          cases st
          exact .reads trivial fun _ => trivial
        case isFalse free =>
          cases st
          exact .insert u time ids (by simpa using length) (by simpa using free)
    | queue room q rest written => exact QueueStep.step_does (by cases written <;> exact st)
    | _ => cases st
  | refuse message =>
    cases op
    case queue room q rest written => exact QueueStep.step_does (by cases written <;> exact st)
    all_goals cases st
    all_goals exact .reads trivial fun _ => trivial
  | call c =>
    cases op with
    | queue room q rest written => exact QueueStep.step_does (by cases written <;> exact st)
    | _ => cases st

end

section

variable {lib : YamlLib} {I V : Type}

/-- No transaction writes that a YAML is validated. -/
def Versioned.CleanDirt (w : Versioned I V) : Prop :=
  ∀ id y, w.dirty id = some y → y.validationStatus ≠ .validated

variable [DecidableEq I]

/-- An update that leaves no YAML validated. -/
lemma Versioned.CleanDirt.update {w w' : Versioned I V} {written : Option (List I)} {id : I}
    {f : Yaml V → Yaml V} (clean : w.CleanDirt)
    (status : ∀ l, written = some l → ∀ y, (f y).validationStatus ≠ .validated)
    (st : w.update written id f = some w') : w'.CleanDirt ∧ w.Grows w' := by
  obtain ⟨-, ⟨rfl, rfl⟩ | ⟨⟨l, rfl⟩, rfl⟩⟩ := Versioned.update_cases st
  · exact ⟨clean, .refl w⟩
  · refine ⟨fun k y' there => ?_, .refl w⟩
    rcases updated_row there with ⟨-, there⟩ | ⟨rfl, y, -, rfl⟩
    · exact clean k y' there
    · exact status l rfl y

lemma Versioned.CleanDirt.drop {w : Versioned I V} (clean : w.CleanDirt) (written : List I) :
    ∀ id y, (if written.contains id then none else w.dirty id) = some y → y.validationStatus ≠ .validated := by
  intro id y there
  split at there
  · cases there
  · exact clean id y there

/-- A step leads to what is known, adds at most jobs, and leaves no uncommitted row validated. -/
lemma VersionOp.Does.knows {w w' : Versioned I V} {op : VersionOp lib I V} {x : VersionGiven I V}
    {t : VersionTask lib I V} (clean : w.CleanDirt) (knows : op.Knows w) (does : op.Does w x w' t) :
    w'.CleanDirt ∧ t.Knows w' ∧ w.Grows w' := by
  cases does with
  | fails => exact ⟨clean, trivial, .refl w⟩
  | rollback written _ => exact ⟨clean.drop written, trivial, .refl w⟩
  | reads _ next => exact ⟨clean, next knows, .refl w⟩
  | asks params time _ _ next => exact ⟨clean, next knows, w.grows_enqueue params time⟩
  | commit target yamls _ => exact ⟨clean, trivial, .refl w⟩
  | reread yamls => exact ⟨clean, nextYaml_knows _ _ _ _, .refl w⟩
  | submit room form => exact ⟨clean, trivial, .refl w⟩
  | finish written => exact ⟨clean.drop written, trivial, .refl w⟩
  | found room id y rest written apworlds => exact ⟨clean, trivial, .refl w⟩
  | skip room id y rest written games _ => exact ⟨clean, nextYaml_knows _ _ _ _, .refl w⟩
  | missing room id y rest written games =>
    exact ⟨clean, ⟨YamlValidationStatus.noConfusion, YamlValidationStatus.noConfusion⟩, .refl w⟩
  | settle room id status error rest written time upd =>
    obtain ⟨clean', grows⟩ := clean.update (fun _ _ _ => knows.1) upd
    exact ⟨clean', nextYaml_knows _ _ _ _, grows⟩
  | reset room id content apworlds rest written upd =>
    obtain ⟨clean', grows⟩ := clean.update (fun _ _ _ => YamlValidationStatus.noConfusion) upd
    exact ⟨clean', trivial, grows⟩
  | enqueue room id content apworlds rest written time =>
    exact ⟨clean, nextYaml_knows _ _ _ _, w.grows_enqueue _ _⟩
  | insert u time ids _ _ => exact ⟨clean, trivial, .refl w⟩
  | edit e status apworlds error source time upd =>
    obtain ⟨clean', grows⟩ := clean.update (fun _ e => by cases e) upd
    exact ⟨clean', trivial, grows⟩
  | gone n job r id _ => exact ⟨clean, trivial, .refl w⟩
  | older n job r id _ _ => exact ⟨clean, trivial, .refl w⟩
  | newer n job r id => exact ⟨clean, knows, .refl w⟩
  | unversioned n job r id => exact ⟨clean, knows, .refl w⟩
  | other n job r id _ => exact ⟨clean, trivial, .refl w⟩
  | same n job r id => exact ⟨clean, knows, .refl w⟩
  | record n job r id upd =>
    obtain ⟨clean', grows⟩ := clean.update (fun _ e => by cases e) upd
    exact ⟨clean', trivial, grows⟩

omit [DecidableEq I] in
/-- A call leads to what is known, and adds at most a report. -/
lemma VersionRequest.start_cases {w w' : Versioned I V} {c : VersionRequest I V} {t : VersionTask lib I V}
    (st : c.start w = some (w', t)) :
    (w' = w ∧ ∃ op, t = .running op ∧ op.Aside ∧ op.Knows w) ∨
      ∃ n r job, (∀ r', (n, r') ∉ w.reports) ∧ w.jobs[n]? = some job ∧
        w' = { w with reports := (n, r) :: w.reports } ∧
        ((job.params.yamlId = none ∧ t = .returned (.processed false)) ∨
          ∃ id, job.params.yamlId = some id ∧ t = .running (.callbackRead n job r id)) := by
  cases c with
  | resolve n r =>
    rw [VersionRequest.start] at st
    split at st
    case isTrue => cases st
    case isFalse first =>
      have unreported : ∀ r', (n, r') ∉ w.reports := by
        intro r' mem
        apply first
        simpa using ⟨r', mem⟩
      split at st
      case h_1 => cases st
      case h_2 job there =>
        refine .inr ⟨n, r, job, unreported, there, ?_⟩
        split at st
        case h_1 anonymous =>
          cases st
          exact ⟨rfl, .inl ⟨anonymous, rfl⟩⟩
        case h_2 id named =>
          cases st
          exact ⟨rfl, .inr ⟨id, named, rfl⟩⟩
  | _ =>
    cases st
    exact .inl ⟨rfl, _, rfl, trivial, trivial⟩

variable [DecidableEq V]

/-- A step of a thread in an operation, or the start of one. -/
lemma versionMachine_cases {i : ℕ} {w w' : Versioned I V} {t t' : VersionTask lib I V} {x : VersionGiven I V}
    (st : versionMachine lib I V i w t x = some (w', t')) :
    (∃ op, t = .running op ∧ op.Does w x w' t') ∨
      (∀ op, t ≠ .running op) ∧ ∃ c : VersionRequest I V, x = .call c ∧ c.start w = some (w', t') := by
  cases t with
  | running op => exact .inl ⟨op, rfl, VersionOp.step_does st⟩
  | idle =>
    cases x with
    | call c => exact .inr ⟨fun op e => (by cases e), c, rfl, st⟩
    | _ => cases st
  | returned e =>
    cases x with
    | call c => exact .inr ⟨fun op e => (by cases e), c, rfl, st⟩
    | _ => cases st

/-- What a thread knows along every run. -/
lemma Run.versionKnows {room : ValidatingRoom V} {C : Cond (Versioned I V) (VersionTask lib I V) (VersionGiven I V)}
    {tr s} (run : Run (versionMachine lib I V) C (Versioned.fresh lib I room) tr s) :
    s.shared.CleanDirt ∧ ∀ i, (s.pc i).Knows s.shared := by
  refine run.everyThread (J := Versioned.CleanDirt) (P := fun w t => t.Knows w) ?_ (fun i => trivial) ?_
  · intro id y there
    cases there
  · intro i w t x w' t' clean knows st
    have all : w'.CleanDirt ∧ t'.Knows w' ∧ w.Grows w' := by
      rcases versionMachine_cases st with ⟨op, rfl, does⟩ | ⟨-, c, -, st⟩
      · exact does.knows clean knows
      · rcases VersionRequest.start_cases st with ⟨rfl, op, rfl, -, known⟩ | ⟨n, r, job, -, there, rfl, next⟩
        · exact ⟨clean, known, .refl _⟩
        · have grows : w.Grows { w with reports := (n, r) :: w.reports } :=
            ⟨fun _ _ h => h, fun _ h => List.mem_cons_of_mem _ h⟩
          rcases next with ⟨-, rfl⟩ | ⟨id, named, rfl⟩
          · exact ⟨clean, trivial, grows⟩
          · exact ⟨clean, ⟨there, List.mem_cons_self, named⟩, grows⟩
    exact ⟨all.1, all.2.1, fun q known => known.mono all.2.2⟩

/-! ## What is validated was validated on the room's version -/

omit [DecidableEq I] [DecidableEq V] in
/-- Every YAML that is validated has its releases and its success from a job for the room's version. -/
def Versioned.ValidatedOnVersion (w : Versioned I V) : Prop :=
  ∀ id y, w.yamls id = some y → y.validationStatus = .validated →
    ∃ n, w.source id = some n ∧ w.Backs n w.room.apVersion y.apworlds

/-- The steps that keep this: a request stores a success, and the callback writes one, for the version that
the room has then; and the version that `edit_room_submit` writes back is the room's, or no YAML is
validated. -/
def Versioned.WritesOnVersion (w : Versioned I V) : VersionTask lib I V → VersionGiven I V → Prop
  | .running (.submitUpdate room _), .go =>
    room.apVersion = w.room.apVersion ∨ ∀ id y, w.yamls id = some y → y.validationStatus ≠ .validated
  | .running (.uploadInsert u), .rows _ ids =>
    w.clashes ids = false → ∀ c ∈ u.done, c.status = .validated → u.room.apVersion = w.room.apVersion
  | .running (.editWrite e status _ _ _), .now _ =>
    status = .validated → (w.yamls e.id).isSome → e.room.apVersion = w.room.apVersion
  | .running (.callbackWrite _ job r id), .go =>
    r.status = .success → (w.yamls id).isSome → job.params.apVersion = some w.room.apVersion
  | _, _ => True

omit [DecidableEq V] in
/-- A row that is written, with the job that its status is from. -/
lemma Versioned.ValidatedOnVersion.row {w : Versioned I V} (keeps : w.ValidatedOnVersion) {id : I}
    {f : Yaml V → Yaml V} {source : I → Option ℕ} (other : ∀ k, k ≠ id → source k = w.source k)
    (own : ∀ y, w.yamls id = some y → (f y).validationStatus = .validated →
      ∃ n, source id = some n ∧ w.Backs n w.room.apVersion (f y).apworlds) :
    Versioned.ValidatedOnVersion { w with
      yamls := Function.update w.yamls id ((w.yamls id).map f)
      source := source } := by
  intro k y' there valid
  rcases updated_row there with ⟨ne, there⟩ | ⟨rfl, y, found, rfl⟩
  · obtain ⟨n, from_, backs⟩ := keeps k y' there valid
    exact ⟨n, (other k ne).trans from_, backs⟩
  · exact own y found valid

omit [DecidableEq V] in
/-- A write that leaves no YAML validated. -/
lemma Versioned.ValidatedOnVersion.update {w w' : Versioned I V} {written : Option (List I)} {id : I}
    {f : Yaml V → Yaml V} (keeps : w.ValidatedOnVersion) (status : ∀ y, (f y).validationStatus ≠ .validated)
    (upd : w.update written id f = some w') : w'.ValidatedOnVersion := by
  obtain ⟨-, ⟨rfl, rfl⟩ | ⟨⟨l, rfl⟩, rfl⟩⟩ := Versioned.update_cases upd
  · exact keeps.row (fun _ _ => rfl) fun y _ valid => absurd valid (status y)
  · exact keeps

omit [DecidableEq I] [DecidableEq V] in
/-- More jobs and reports, with the rows and the room as they were. -/
lemma Versioned.ValidatedOnVersion.grow {w w' : Versioned I V} (keeps : w.ValidatedOnVersion)
    (grows : w.Grows w') (room : w'.room = w.room) (yamls : w'.yamls = w.yamls)
    (source : w'.source = w.source) : w'.ValidatedOnVersion := by
  intro id y there valid
  rw [yamls] at there
  obtain ⟨n, from_, backs⟩ := keeps id y there valid
  refine ⟨n, ?_, ?_⟩
  · rw [source, from_]
  · rw [room]
    exact backs.mono grows

omit [DecidableEq V] in
/-- The rows that a transaction brings in are not validated. -/
lemma Versioned.ValidatedOnVersion.commit {w : Versioned I V} (keeps : w.ValidatedOnVersion)
    (clean : w.CleanDirt) (written : List I) : (w.commit written).ValidatedOnVersion := by
  intro id y there valid
  have there : (if written.contains id then (w.dirty id).or (w.yamls id) else w.yamls id) = some y := there
  split at there
  · rcases dirty : w.dirty id with _ | y'
    · rw [dirty, Option.none_or] at there
      exact keeps id y there valid
    · rw [dirty, Option.some_or] at there
      obtain rfl := Option.some.inj there
      exact absurd valid (clean id _ dirty)
  · exact keeps id y there valid

omit [DecidableEq V] in
lemma mem_of_lookup {A : Type} {rows : List (I × A)} {id : I} {a : A} (found : rows.lookup id = some a) :
    (id, a) ∈ rows := by
  obtain ⟨before, after, rfl, -⟩ := List.lookup_eq_some_iff.mp found
  simp

omit [DecidableEq V] in
/-- Of rows with different ids, each is found. -/
lemma lookup_zip {A : Type} {ids : List I} {l : List A} (nodup : ids.Nodup) (length : ids.length = l.length)
    {a : A} (mem : a ∈ l) : ∃ id ∈ ids, (ids.zip l).lookup id = some a := by
  induction ids generalizing l with
  | nil => 
    rw [List.eq_nil_of_length_eq_zero length.symm] at mem
    cases mem
  | cons id ids ih =>
    cases l with
    | nil => cases mem
    | cons b l =>
      rcases List.mem_cons.mp mem with rfl | mem
      · exact ⟨id, List.mem_cons_self, by rw [List.zip_cons_cons, List.lookup_cons_self]⟩
      · obtain ⟨notMem, nodup⟩ := List.nodup_cons.mp nodup
        obtain ⟨k, there, found⟩ := ih nodup (Nat.succ.inj length) mem
        refine ⟨k, List.mem_cons_of_mem _ there, ?_⟩
        have ne : (k == id) = false := beq_false_of_ne fun e => notMem (e ▸ there)
        rw [List.zip_cons_cons, List.lookup_cons, ne]
        exact found

omit [DecidableEq V] in
/-- The documents of an upload for the room's version. -/
lemma Versioned.ValidatedOnVersion.insert {w : Versioned I V} (keeps : w.ValidatedOnVersion)
    {rows : List (I × CheckedYaml V)} {time : ℕ}
    (own : ∀ row ∈ rows, row.2.status = .validated →
      ∃ n, row.2.source = some n ∧ w.Backs n w.room.apVersion row.2.apworlds) :
    (w.insert rows time).ValidatedOnVersion := by
  intro id y there valid
  have there : (rows.lookup id).elim (w.yamls id) (fun c => some (c.toYaml time)) = some y := there
  show ∃ n, (rows.lookup id).elim (w.source id) (·.source) = some n ∧ _
  rcases new : rows.lookup id with _ | c
  · rw [new, Option.elim_none] at there
    exact keeps id y there valid
  · rw [new, Option.elim_some] at there
    obtain rfl := Option.some.inj there
    exact own (id, c) (mem_of_lookup new) valid

omit [DecidableEq V] in
/-- A step under the condition keeps it so. -/
lemma VersionOp.Does.validated {w w' : Versioned I V} {op : VersionOp lib I V} {x : VersionGiven I V}
    {t : VersionTask lib I V} (clean : w.CleanDirt) (knows : op.Knows w) (keeps : w.ValidatedOnVersion)
    (writes : w.WritesOnVersion (.running op) x) (does : op.Does w x w' t) : w'.ValidatedOnVersion := by
  cases does with
  | asks params time _ _ _ => exact keeps.grow (w.grows_enqueue params time) rfl rfl rfl
  | commit target yamls _ =>
    intro id y there valid
    obtain ⟨y, -, rfl⟩ := Option.map_eq_some_iff.mp there
    cases valid
  | submit room form =>
    intro id y there valid
    rcases writes with same | none_
    · obtain ⟨n, from_, backs⟩ := keeps id y there valid
      exact ⟨n, from_, same ▸ backs⟩
    · exact absurd valid (none_ id y there)
  | finish written => exact keeps.commit clean written
  | settle room id status error rest written time upd =>
    exact (keeps.update (fun _ => knows.1) upd).grow (.refl _) rfl rfl rfl
  | reset room id content apworlds rest written upd =>
    exact keeps.update (fun _ => YamlValidationStatus.noConfusion) upd
  | enqueue room id content apworlds rest written time => exact keeps.grow (w.grows_enqueue _ _) rfl rfl rfl
  | insert u time ids _ free =>
    refine keeps.insert fun row mem valid => ?_
    have done : row.2 ∈ u.done := (List.of_mem_zip mem).2
    rw [← writes free row.2 done valid]
    exact (knows row.2 done).2 valid
  | edit e status apworlds error source time upd =>
    obtain ⟨-, ⟨-, rfl⟩ | ⟨⟨l, ⟨⟩⟩, -⟩⟩ := Versioned.update_cases upd
    refine keeps.row (fun k ne => Function.update_of_ne ne _ _) fun y found valid => ?_
    obtain ⟨n, rfl, backs⟩ := knows.2 valid
    refine ⟨n, Function.update_self _ _ _, ?_⟩
    rw [← writes valid (by rw [found]; rfl)]
    exact backs
  | record n job r id upd =>
    obtain ⟨-, ⟨-, rfl⟩ | ⟨⟨l, ⟨⟩⟩, -⟩⟩ := Versioned.update_cases upd
    refine keeps.row (fun k ne => Function.update_of_ne ne _ _) fun y found valid => ?_
    have success := ValidationResult.outcome_validated valid
    refine ⟨n, Function.update_self _ _ _, job, r, knows.1, knows.2.1, success, ?_, rfl⟩
    exact writes success (by rw [found]; rfl)
  | _ => exact keeps

omit [DecidableEq V] in
/-- The row of a document. -/
lemma Versioned.insert_row (w : Versioned I V) {rows : List (I × CheckedYaml V)} {id : I} {c : CheckedYaml V}
    (time : ℕ) (found : rows.lookup id = some c) :
    (w.insert rows time).yamls id = some (c.toYaml time) ∧ (w.insert rows time).source id = c.source := by
  constructor
  · simp only [Versioned.insert, found, Option.elim_some]
  · simp only [Versioned.insert, found, Option.elim_some]

omit [DecidableEq I] [DecidableEq V] in
/-- A job is for one version. -/
lemma Versioned.Backs.version_unique {w w' : Versioned I V} {n : ℕ} {version version' : V}
    {apworlds apworlds' : List (String × V)} (backs : w.Backs n version apworlds)
    (backs' : w'.Backs n version' apworlds') (jobs : w'.jobs = w.jobs) : version = version' := by
  obtain ⟨job, -, found, -, -, same, -⟩ := backs
  obtain ⟨job', -, found', -, -, same', -⟩ := backs'
  rw [jobs] at found'
  obtain rfl := Option.some.inj (found.symm.trans found')
  exact Option.some.inj (same.symm.trans same')

omit [DecidableEq V] in
lemma updated_self {rows : I → Option (Yaml V)} {id : I} {y : Yaml V} {f : Yaml V → Yaml V}
    (found : rows id = some y) : Function.update rows id ((rows id).map f) id = some (f y) := by
  rw [Function.update_self, found, Option.map_some]

omit [DecidableEq I] [DecidableEq V] in
lemma ValidationResult.outcome_success {r : ValidationResult} (success : r.status = .success) :
    r.outcome.1 = .validated := by
  rw [ValidationResult.outcome, success]

/-- A step that keeps it so meets the condition. -/
lemma Versioned.ValidatedOnVersion.writes {w w' : Versioned I V} {t t' : VersionTask lib I V}
    {x : VersionGiven I V} {i : ℕ} (knows : t.Knows w) (keeps : w.ValidatedOnVersion)
    (st : versionMachine lib I V i w t x = some (w', t')) (keeps' : w'.ValidatedOnVersion) :
    w.WritesOnVersion t x := by
  unfold Versioned.WritesOnVersion
  split
  case h_1 room form =>
    cases st
    rw [or_iff_not_imp_right]
    intro some_
    push Not at some_
    obtain ⟨id, y, there, valid⟩ := some_
    obtain ⟨n, from_, job, r, found, -, -, version, -⟩ := keeps id y there valid
    obtain ⟨n', from', job', r', found', -, -, version', -⟩ := keeps' id y there valid
    obtain rfl := Option.some.inj (from_.symm.trans from')
    obtain rfl := Option.some.inj (found.symm.trans found')
    exact Option.some.inj (version'.symm.trans version)
  case h_2 u time ids =>
    intro free c mem valid
    obtain ⟨length, rfl⟩ : ids.length = u.done.length ∧ w.insert (ids.zip u.done) time = w' := by
      rw [versionMachine, VersionOp.step] at st
      split at st
      case isTrue => cases st
      case isFalse length =>
        rw [free] at st
        cases st
        exact ⟨by simpa using length, rfl⟩
    have nodup : ids.Nodup := by
      rw [Versioned.clashes, Bool.or_eq_false_iff] at free
      simpa using free.1
    obtain ⟨id, -, found⟩ := lookup_zip nodup length mem
    obtain ⟨there, source⟩ := w.insert_row time found
    obtain ⟨n, from_, backs⟩ := (knows c mem).2 valid
    obtain ⟨n', from', backs'⟩ := keeps' id _ there valid
    obtain rfl := Option.some.inj (from_.symm.trans (source.symm.trans from'))
    exact backs.version_unique backs' rfl
  case h_3 e status apworlds error source time =>
    intro valid some_
    obtain ⟨y, found⟩ := Option.isSome_iff_exists.mp some_
    obtain ⟨w₁, upd, same⟩ := Option.map_eq_some_iff.mp st
    cases same
    obtain ⟨-, ⟨-, rfl⟩ | ⟨⟨l, ⟨⟩⟩, -⟩⟩ := Versioned.update_cases upd
    obtain ⟨n, rfl, backs⟩ := knows.2 valid
    obtain ⟨n', from', backs'⟩ := keeps' e.id _ (updated_self found) valid
    have own : Function.update w.source e.id (some n) e.id = some n' := from'
    rw [Function.update_self] at own
    obtain rfl := Option.some.inj own
    exact backs.version_unique backs' rfl
  case h_4 n job r id =>
    intro success some_
    obtain ⟨y, found⟩ := Option.isSome_iff_exists.mp some_
    obtain ⟨w₁, upd, same⟩ := Option.map_eq_some_iff.mp st
    cases same
    obtain ⟨-, ⟨-, rfl⟩ | ⟨⟨l, ⟨⟩⟩, -⟩⟩ := Versioned.update_cases upd
    have valid : (y.record job r).validationStatus = .validated := ValidationResult.outcome_success success
    obtain ⟨n', from', job', r', there, -, -, version, -⟩ := keeps' id _ (updated_self found) valid
    have own : Function.update w.source id (some n) id = some n' := from'
    rw [Function.update_self] at own
    obtain rfl := Option.some.inj own
    obtain rfl := Option.some.inj (knows.1.symm.trans there)
    exact version
  case h_5 => trivial

end

/-! ## An upload that waits while the room moves -/

/-- A room on version 1 without YAMLs. -/
def emptyRoom : Conf (Versioned ℕ ℕ) (VersionTask sampleLib ℕ ℕ) :=
  Versioned.fresh sampleLib ℕ ⟨1, false, false⟩

/-- `i` uploads a YAML, up to where it waits for its job. -/
def uploading (i t : ℕ) : List (ℕ × VersionGiven ℕ ℕ) :=
  [(i, .call (.uploadYaml [easy])), (i, .go), (i, .go), (i, .apworlds (.ok [])), (i, .now t)]

/-- `k` reports that job `n`, which `i` waits for, is a success; then the YAML is inserted. -/
def uploaded (i k n t : ℕ) : List (ℕ × VersionGiven ℕ ℕ) :=
  [(k, .call (.resolve n succeeded)), (i, .report succeeded), (i, .rows t [0])]

/-- `i` moves the room to version 2, up to where it has read the room again. -/
def switching (i : ℕ) : List (ℕ × VersionGiven ℕ ℕ) :=
  [(i, .call (.switchBase 2 true)), (i, .go), (i, .go), (i, .go), (i, .go), (i, .go)]

/-- The thread is in no operation. -/
def VersionTask.isResting {lib : YamlLib} {I V : Type} : VersionTask lib I V → Bool
  | .running _ => false
  | _ => true

end ArchipelagoXL.Lobby
