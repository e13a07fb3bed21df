import ArchipelagoXL.Lib.Interleave
import ArchipelagoXL.Lobby.Yaml

/-!
# Validation, edits and late results

The operations that change what a YAML says and what is known about it, cut at each access of the
database and of the validation queue: `queue_yaml_validation` (`lobby/src/yaml.rs`), `edit_yaml`
(`lobby/src/views/api.rs`) and the validation callback (`lobby/src/jobs.rs`), any number of them at once.
The room they read can be changed at any time, so it comes from the environment, and so do the clock
and the releases that the index has for the YAML's games.

An edit stores the content with the status of that content, but does not touch `last_validation_time`.
A job queued for the old content is then not older than the last validation, and when its result comes
in late the edited YAML is taken for validated (`late_success`). This is the only way: while no result is
written on a YAML that was edited since, what is validated was validated as it is (`validated_as_is`).
-/

namespace ArchipelagoXL.Lobby

open Interleave

/-- What the operations read of a room (Rust `Room`). -/
structure Room (V : Type) where
  apVersion : V
  locked : Bool
  yamlValidation : Bool
  allowInvalidYamls : Bool

/-- Rust `EditYamlRequest`. -/
structure EditYamlRequest where
  content : String
  editedBy : ℤ
  editedByName : String

/-- The table of YAMLs, the jobs that were queued and what workers reported, by number of the job. -/
structure Tables (I V : Type) where
  yamls : I → Option (Yaml V)
  jobs : List (ValidationJob I V)
  reports : List (ℕ × ValidationResult)

/-- An edit that passed the checks of its request. -/
structure Edit (lib : YamlLib) (I V : Type) where
  id : I
  room : Room V
  req : EditYamlRequest
  document : String
  gameName : String
  name : String
  isDocument : documentOf lib req.content = some document

/-- The points of the operations. -/
inductive Point (lib : YamlLib) (I V : Type) where
  /-- `queue_yaml_validation`: the caller reads room and row (after a change of the base with the status
  already taken for unknown); then the releases are looked up, the row is settled or reset, and the job
  is queued. -/
  | queueRead (id : I) (asUnknown : Bool)
  | queueApworlds (id : I) (y : Yaml V) (room : Room V)
  | queueSettle (id : I) (status : YamlValidationStatus) (error : String)
  | queueReset (id : I) (content : String) (room : Room V) (apworlds : List (String × V))
  | queueEnqueue (id : I) (content : String) (room : Room V) (apworlds : List (String × V))
  /-- `edit_yaml`: room and row are read and the request is checked; the document is validated by a job
  of its own, and what was sent is stored. -/
  | editRead (id : I) (req : EditYamlRequest)
  | editApworlds (e : Edit lib I V)
  | editEnqueue (e : Edit lib I V) (apworlds : List (String × V))
  | editWait (e : Edit lib I V) (apworlds : List (String × V)) (job : ℕ)
  | editWrite (e : Edit lib I V) (status : YamlValidationStatus) (apworlds : List (String × V))
    (error : Option String)
  /-- The callback: the row is read, then the version of the room, and the result is written. -/
  | callbackRead (job : ValidationJob I V) (r : ValidationResult) (id : I)
  | callbackVersion (job : ValidationJob I V) (r : ValidationResult) (id : I)
  | callbackWrite (job : ValidationJob I V) (r : ValidationResult) (id : I)

/-- What an operation returned. -/
inductive Outcome where
  | queued
  | edited
  /-- The callback took the result, or left it to the one who waits for it. -/
  | processed (cleanup : Bool)
  | error (message : String)
  /-- The database or the queue could not be reached. -/
  | unreachable

/-- A thread: between operations, in one, or just back from one. -/
inductive Task (lib : YamlLib) (I V : Type) where
  | idle
  | running (op : Point lib I V)
  | returned (o : Outcome)

/-- What can be called: a validation, an edit, and a worker's report on a job, which runs the callback. -/
inductive Request (I : Type) where
  | queueYamlValidation (id : I) (asUnknown : Bool)
  | editYaml (id : I) (req : EditYamlRequest)
  | resolve (job : ℕ) (r : ValidationResult)

/-- What the environment decides. -/
inductive Given (I V : Type) where
  | call (c : Request I)
  | go
  | room (room : Room V)
  /-- The releases for the games of a YAML, or the games that have none (Rust
  `get_apworlds_for_games`). -/
  | apworlds (r : Except (List String) (List (String × V)))
  | now (t : ℕ)
  | report (r : ValidationResult)
  | fail

/-- The text of an unsupported YAML. -/
def unsupportedError (games : List String) : String :=
  "Unsupported apworlds: " ++ ", ".intercalate games

section

variable {lib : YamlLib} {I V : Type}

/-- The checks of `edit_yaml` on the row and the request. -/
def checkEdit (lib : YamlLib) (id : I) (y : Yaml V) (room : Room V) (req : EditYamlRequest) :
    Except String (Edit lib I V) :=
  match parseRawYamls lib [y.currentContent] with
  | .error e => .error e
  -- the source takes the first document without looking
  | .ok [] => .error "index out of bounds"
  | .ok ((_, original) :: _) =>
    match h : parseRawYamls lib [req.content] with
    | .error e => .error e
    | .ok [(document, parsed)] =>
      if parsed.game != original.game then .error "Cannot change the game in an edit"
      else if parsed.name ≠ original.name then .error "Cannot change the slot name in an edit"
      else
        match validateGame parsed.game with
        | .error e => .error e
        | .ok gameName =>
          .ok ⟨id, room, req, document, gameName, parsed.name, by simp [documentOf, h]⟩
    | .ok _ => .error "Edited content must contain exactly one YAML document"

/-- What `edit_yaml` makes of the status of its job, through `validate_yaml`. -/
def Edit.afterWait (e : Edit lib I V) (apworlds : List (String × V)) (r : ValidationResult) :
    Task lib I V :=
  match r.status with
  | .success => .running (.editWrite e .validated apworlds none)
  | .failure =>
    let error := (r.result.bind fun e => e).getD "Internal Error"
    if e.room.allowInvalidYamls then .running (.editWrite e .failed apworlds (some error))
    else .returned (.error ("Validation failed: " ++ error))
  | _ => .returned (.error ("Internal error while validating this YAML. This should not happen, " ++
      "please report the bug."))

variable [DecidableEq I] [DecidableEq V]

/-- An update of the row of a YAML, if there is one. -/
def Tables.update (w : Tables I V) (id : I) (f : Yaml V → Yaml V) : Tables I V :=
  { w with yamls := Function.update w.yamls id ((w.yamls id).map f) }

/-- A new job in the queue. -/
def Tables.enqueue (w : Tables I V) (job : ValidationJob I V) : Tables I V :=
  { w with jobs := w.jobs ++ [job] }

/-- One step of an operation. -/
def Point.step (w : Tables I V) : Point lib I V → Given I V → Option (Tables I V × Task lib I V)
  | .queueRead id asUnknown, .room room =>
    match w.yamls id with
    | none => some (w, .returned (.error "Couldn't find this YAML in this room"))
    | some y =>
      match lib.readYaml y.currentContent with
      | .error _ =>
        some (w, .running (.queueSettle id .failed
          "Internal error: YAML content could not be reparsed"))
      | .ok _ =>
        some (w, .running (.queueApworlds id (if asUnknown then y.resetStatus else y) room))
  | .queueApworlds id y room, .apworlds r =>
    match r with
    | .ok apworlds => some (w, .running (.queueReset id y.currentContent room apworlds))
    | .error games =>
      if y.validationStatus = .unsupported then some (w, .returned .queued)
      else some (w, .running (.queueSettle id .unsupported (unsupportedError games)))
  | .queueSettle id status error, .now t =>
    some (w.update id (·.updateStatus status (some error) [] t), .returned .queued)
  | .queueReset id content room apworlds, .go =>
    some (w.update id Yaml.resetStatus, .running (.queueEnqueue id content room apworlds))
  | .queueEnqueue id content room apworlds, .now t =>
    some (w.enqueue ⟨⟨apworlds, content, some id, some room.apVersion⟩, t⟩, .returned .queued)
  | .editRead id req, .room room =>
    if room.locked then some (w, .returned (.error "This room is locked"))
    else
      match w.yamls id with
      | none => some (w, .returned (.error "Couldn't find this YAML in this room"))
      | some y =>
        match checkEdit lib id y room req with
        | .error e => some (w, .returned (.error e))
        | .ok e =>
          if room.yamlValidation then some (w, .running (.editApworlds e))
          else some (w, .running (.editWrite e .unknown [] none))
  | .editApworlds e, .apworlds r =>
    match r with
    | .ok apworlds => some (w, .running (.editEnqueue e apworlds))
    | .error games =>
      some (w, .running (.editWrite e .unsupported [] (some (unsupportedError games))))
  | .editEnqueue e apworlds, .now t =>
    -- this job names no YAML: the callback leaves its result to the edit
    some (w.enqueue ⟨⟨apworlds, e.document, none, some e.room.apVersion⟩, t⟩,
      .running (.editWait e apworlds w.jobs.length))
  | .editWait e apworlds job, .report r =>
    if (job, r) ∈ w.reports then some (w, e.afterWait apworlds r) else none
  | .editWrite e status apworlds error, .now t =>
    some (w.update e.id (·.updateEditedContent e.req.content e.gameName e.name status apworlds error
      (e.req.editedBy, e.req.editedByName, toTimestamp t)), .returned .edited)
  | .callbackRead job r id, .go =>
    match w.yamls id with
    | none => some (w, .returned (.processed true))
    | some y =>
      if y.olderJob job then some (w, .returned (.processed true))
      else if job.params.apVersion.isSome then some (w, .running (.callbackVersion job r id))
      else some (w, .running (.callbackWrite job r id))
  | .callbackVersion job r id, .room room =>
    if job.otherVersion room.apVersion then some (w, .returned (.processed true))
    else some (w, .running (.callbackWrite job r id))
  | .callbackWrite job r id, .go =>
    some (w.update id (·.record job r), .returned (.processed true))
  | _, .fail => some (w, .returned .unreachable)
  | _, _ => none

/-- The start of an operation. -/
def Request.start (w : Tables I V) : Request I → Option (Tables I V × Task lib I V)
  | .queueYamlValidation id asUnknown => some (w, .running (.queueRead id asUnknown))
  | .editYaml id req => some (w, .running (.editRead id req))
  | .resolve n r =>
    match w.jobs[n]? with
    | none => none
    | some job =>
      let w := { w with reports := (n, r) :: w.reports }
      match job.params.yamlId with
      | none => some (w, .returned (.processed false))
      | some id => some (w, .running (.callbackRead job r id))

/-- The lobby as a machine. -/
def lobbyMachine (lib : YamlLib) (I V : Type) [DecidableEq I] [DecidableEq V] :
    Machine (Tables I V) (Task lib I V) (Given I V) :=
  fun _ w t x =>
    match t, x with
    | .running op, x => op.step w x
    | _, .call c => c.start w
    | _, _ => none

/-! ## What a step can do -/

/-- Jobs and reports are only added. -/
def Tables.Grows (w w' : Tables I V) : Prop :=
  (∀ (n : ℕ) (job : ValidationJob I V), w.jobs[n]? = some job → w'.jobs[n]? = some job) ∧
    ∀ p ∈ w.reports, p ∈ w'.reports

omit [DecidableEq I] [DecidableEq V] in
lemma Tables.Grows.refl (w : Tables I V) : w.Grows w := ⟨fun _ _ h => h, fun _ h => h⟩

omit [DecidableEq I] [DecidableEq V] in
lemma Tables.grows_enqueue (w : Tables I V) (job : ValidationJob I V) : w.Grows (w.enqueue job) := by
  refine ⟨?_, fun _ h => h⟩
  intro n j h
  have lt : n < w.jobs.length := (List.getElem?_eq_some_iff.1 h).1
  show (w.jobs ++ [job])[n]? = some j
  rw [List.getElem?_append_left lt, h]

omit [DecidableEq V] in
lemma Tables.grows_update (w : Tables I V) (id : I) (f : Yaml V → Yaml V) :
    w.Grows (w.update id f) :=
  ⟨fun _ _ h => h, fun _ h => h⟩

/-- A worker reported that the YAML is valid. -/
def Reported (lib : YamlLib) (w : Tables I V) (content : String) : Prop :=
  ∃ (n : ℕ) (job : ValidationJob I V) (r : ValidationResult), w.jobs[n]? = some job ∧
    (n, r) ∈ w.reports ∧ r.status = .success ∧ SameYaml lib job.params.yaml content

/-- What is validated was validated as it is. -/
def Sound (lib : YamlLib) (w : Tables I V) : Prop :=
  ∀ (id : I) (y : Yaml V), w.yamls id = some y → y.validationStatus = .validated →
    Reported lib w y.currentContent

omit [DecidableEq I] [DecidableEq V] in
lemma Reported.mono {w w' : Tables I V} {content : String} (grows : w.Grows w')
    (rep : Reported lib w content) : Reported lib w' content := by
  obtain ⟨n, job, r, hj, hr, success, same⟩ := rep
  exact ⟨n, job, r, grows.1 n job hj, grows.2 _ hr, success, same⟩

/-- What an operation has to rely on: the job it waits for is for its document, the status it
is about to write was reported. -/
def Point.Backed (w : Tables I V) : Point lib I V → Prop
  | .queueSettle _ status _ => status ≠ .validated
  | .editWait e _ n => ∃ job, w.jobs[n]? = some job ∧ job.params.yaml = e.document
  | .editWrite e status _ _ => status = .validated → Reported lib w e.req.content
  | .callbackRead job r _ | .callbackVersion job r _ | .callbackWrite job r _ =>
    ∃ n : ℕ, w.jobs[n]? = some job ∧ (n, r) ∈ w.reports
  | _ => True

/-- What a thread relies on. -/
def Task.Backed (w : Tables I V) : Task lib I V → Prop
  | .running op => op.Backed w
  | _ => True

omit [DecidableEq I] [DecidableEq V] in
lemma Task.Backed.mono {w w' : Tables I V} (grows : w.Grows w') {t : Task lib I V}
    (h : t.Backed w) : t.Backed w' := by
  have job : ∀ {job : ValidationJob I V} {r : ValidationResult},
      (∃ n : ℕ, w.jobs[n]? = some job ∧ (n, r) ∈ w.reports) →
        ∃ n : ℕ, w'.jobs[n]? = some job ∧ (n, r) ∈ w'.reports := by
    intro job r ⟨n, hj, hr⟩
    exact ⟨n, grows.1 n job hj, grows.2 _ hr⟩
  cases t with
  | idle => trivial
  | returned o => trivial
  | running op =>
    cases op with
    | queueSettle id status error => exact h
    | editWait e apworlds n =>
      obtain ⟨job, hj, same⟩ := h
      exact ⟨job, grows.1 n job hj, same⟩
    | editWrite e status apworlds error => exact fun v => (h v).mono grows
    | callbackRead _ _ _ => exact job h
    | callbackVersion _ _ _ => exact job h
    | callbackWrite _ _ _ => exact job h
    | _ => trivial

/-- What a step leaves behind: the tables as they were, a new job, or one of the four writes. -/
lemma Point.step_tables {w w' : Tables I V} {op : Point lib I V} {x : Given I V} {t : Task lib I V}
    (st : op.step w x = some (w', t)) :
    w' = w ∨ (∃ job, w' = w.enqueue job) ∨
      (∃ id status error time, op = .queueSettle id status error ∧
        w' = w.update id (·.updateStatus status (some error) [] time)) ∨
      (∃ id, w' = w.update id Yaml.resetStatus) ∨
      (∃ e status apworlds error edited, op = .editWrite e status apworlds error ∧
        w' = w.update e.id (·.updateEditedContent e.req.content e.gameName e.name status apworlds
          error edited)) ∨
      ∃ job r id, op = .callbackWrite job r id ∧ x = .go ∧ w' = w.update id (·.record job r) := by
  unfold Point.step at st
  repeat' split at st
  all_goals cases st
  all_goals first
    | exact .inl rfl
    | exact .inr (.inl ⟨_, rfl⟩)
    | exact .inr (.inr (.inl ⟨_, _, _, _, rfl, rfl⟩))
    | exact .inr (.inr (.inr (.inl ⟨_, rfl⟩)))
    | exact .inr (.inr (.inr (.inr (.inl ⟨_, _, _, _, _, rfl, rfl⟩))))
    | exact .inr (.inr (.inr (.inr (.inr ⟨_, _, _, rfl, rfl, rfl⟩))))

/-- A step only adds jobs and reports. -/
lemma Point.step_grows {w w' : Tables I V} {op : Point lib I V} {x : Given I V} {t : Task lib I V}
    (st : op.step w x = some (w', t)) : w.Grows w' := by
  rcases Point.step_tables st with rfl | ⟨job, rfl⟩ | ⟨id, _, _, _, -, rfl⟩ | ⟨id, rfl⟩ |
    ⟨e, _, _, _, _, -, rfl⟩ | ⟨job, r, id, -, -, rfl⟩
  · exact Tables.Grows.refl _
  · exact w.grows_enqueue job
  · exact w.grows_update _ _
  · exact w.grows_update _ _
  · exact w.grows_update _ _
  · exact w.grows_update _ _

omit [DecidableEq I] [DecidableEq V] in
/-- A Success that an edit waited for was reported for what the edit stores. -/
lemma Edit.afterWait_backed {w : Tables I V} {e : Edit lib I V} {apworlds : List (String × V)}
    {r : ValidationResult} {n : ℕ} (wait : (Point.editWait e apworlds n).Backed w)
    (mem : (n, r) ∈ w.reports) : (e.afterWait apworlds r).Backed w := by
  obtain ⟨job, hj, doc⟩ := wait
  unfold Edit.afterWait
  split
  · rename_i success
    intro _
    refine ⟨n, job, r, hj, mem, success, ?_⟩
    rw [doc]
    exact .of_documentOf e.isDocument
  · split
    · intro v
      cases v
    · trivial
  · trivial

/-- A step leads to a point that has what it relies on. -/
lemma Point.step_backed {w w' : Tables I V} {op : Point lib I V} {x : Given I V} {t : Task lib I V}
    (h : op.Backed w) (st : op.step w x = some (w', t)) : t.Backed w' := by
  unfold Point.step at st
  split at st
  · -- queueRead
    repeat' split at st
    all_goals cases st
    · trivial
    · exact YamlValidationStatus.noConfusion
    · trivial
    · trivial
  · -- queueApworlds
    repeat' split at st
    all_goals cases st
    · trivial
    · trivial
    · exact YamlValidationStatus.noConfusion
  · cases st; trivial
  · cases st; trivial
  · cases st; trivial
  · -- editRead
    repeat' split at st
    all_goals cases st
    · trivial
    · trivial
    · trivial
    · trivial
    · exact YamlValidationStatus.noConfusion
  · -- editApworlds
    repeat' split at st
    all_goals cases st
    · trivial
    · exact YamlValidationStatus.noConfusion
  · -- editEnqueue
    cases st
    exact ⟨_, List.getElem?_concat_length, rfl⟩
  · -- editWait
    split at st
    · rename_i mem
      cases st
      exact Edit.afterWait_backed h mem
    · cases st
  · cases st; trivial
  · -- callbackRead
    repeat' split at st
    all_goals cases st
    · trivial
    · trivial
    · exact h
    · exact h
  · -- callbackVersion
    repeat' split at st
    all_goals cases st
    · trivial
    · exact h
  · cases st; trivial
  · cases st; trivial
  · cases st

omit [DecidableEq V] in
/-- The row that an update leaves, from the one it found. -/
lemma Tables.update_row {w : Tables I V} {id k : I} {f : Yaml V → Yaml V} {y' : Yaml V}
    (row : (w.update id f).yamls k = some y') :
    w.yamls k = some y' ∨ k = id ∧ ∃ y, w.yamls id = some y ∧ y' = f y := by
  have upd : Function.update w.yamls id ((w.yamls id).map f) k = some y' := row
  by_cases e : k = id
  · subst e
    rw [Function.update_self, Option.map_eq_some_iff] at upd
    obtain ⟨y, hy, eq⟩ := upd
    exact .inr ⟨rfl, y, hy, eq.symm⟩
  · rw [Function.update_of_ne e] at upd
    exact .inl upd

omit [DecidableEq V] in
/-- An update keeps the tables sound if the row it leaves is sound. -/
lemma Sound.update {w : Tables I V} (sound : Sound lib w) {id : I} {f : Yaml V → Yaml V}
    (h : ∀ y, w.yamls id = some y → (f y).validationStatus = .validated →
      Reported lib w (f y).currentContent) : Sound lib (w.update id f) := by
  intro k y' row valid
  have grows := w.grows_update id f
  rcases Tables.update_row row with old | ⟨rfl, y, hy, rfl⟩
  · exact (sound k y' old valid).mono grows
  · exact (h y hy valid).mono grows

/-- No Success is written on a YAML that is another one by now: when the callback writes the result of a
job, the row still has the content that the job was queued with, up to what `parse_raw_yamls`
strips. -/
def UpToDate (lib : YamlLib) (I V : Type) : Cond (Tables I V) (Task lib I V) (Given I V) :=
  fun _ s i x =>
    ∀ job r id y, s.pc i = .running (.callbackWrite job r id) → x = .go → r.status = .success →
      s.shared.yamls id = some y → SameYaml lib job.params.yaml y.currentContent

omit [DecidableEq I] [DecidableEq V] in
lemma ValidationResult.outcome_validated {r : ValidationResult} (h : r.outcome.1 = .validated) :
    r.status = .success := by
  unfold ValidationResult.outcome at h
  split at h
  · assumption
  · cases h
  · cases h

/-- A step keeps the tables sound, unless it writes the result of a job for another content. -/
lemma Point.step_sound {w w' : Tables I V} {op : Point lib I V} {x : Given I V} {t : Task lib I V}
    (sound : Sound lib w) (backed : op.Backed w)
    (current : ∀ job r id y, op = .callbackWrite job r id → x = .go → r.status = .success →
      w.yamls id = some y → SameYaml lib job.params.yaml y.currentContent)
    (st : op.step w x = some (w', t)) : Sound lib w' := by
  rcases Point.step_tables st with rfl | ⟨job, rfl⟩ | ⟨id, status, error, time, rfl, rfl⟩ | ⟨id, rfl⟩ |
    ⟨e, status, apworlds, error, edited, rfl, rfl⟩ | ⟨job, r, id, rfl, rfl, rfl⟩
  · exact sound
  · intro id y row valid
    exact (sound id y row valid).mono (w.grows_enqueue job)
  · apply sound.update
    intro y _ valid
    exact absurd valid backed
  · apply sound.update
    intro y _ valid
    cases valid
  · apply sound.update
    intro y _ valid
    exact backed valid
  · apply sound.update
    intro y hy valid
    obtain ⟨n, hj, hr⟩ := backed
    have success := ValidationResult.outcome_validated valid
    exact ⟨n, job, r, hj, hr, success, current job r id y rfl rfl success hy⟩

omit [DecidableEq I] [DecidableEq V] in
/-- A call adds at most a report, and starts at a point that has what it relies on. -/
lemma Request.start_spec {w w' : Tables I V} {c : Request I} {t : Task lib I V}
    (st : c.start w = some (w', t)) :
    w.Grows w' ∧ w'.yamls = w.yamls ∧ t.Backed w' := by
  cases c with
  | queueYamlValidation id asUnknown =>
    cases st
    exact ⟨.refl w, rfl, trivial⟩
  | editYaml id req =>
    cases st
    exact ⟨.refl w, rfl, trivial⟩
  | resolve n r =>
    have grows : w.Grows { w with reports := (n, r) :: w.reports } :=
      ⟨fun _ _ h => h, fun _ h => List.mem_cons_of_mem _ h⟩
    simp only [Request.start] at st
    split at st
    · cases st
    · rename_i job hj
      split at st
      · cases st
        exact ⟨grows, rfl, trivial⟩
      · cases st
        exact ⟨grows, rfl, n, hj, List.mem_cons_self⟩

/-- What holds along a run: the tables are sound and every thread has what it relies on. -/
structure Sure (lib : YamlLib) (s : Conf (Tables I V) (Task lib I V)) : Prop where
  sound : Sound lib s.shared
  backed : ∀ k, (s.pc k).Backed s.shared

lemma Sure.step {tr : List (Event (Task lib I V) (Given I V))}
    {s : Conf (Tables I V) (Task lib I V)} (sure : Sure lib s) {i : ℕ} {x : Given I V}
    (current : UpToDate lib I V tr s i x) {w : Tables I V} {t : Task lib I V}
    (st : lobbyMachine lib I V i s.shared (s.pc i) x = some (w, t)) : Sure lib (s.move i w t) := by
  have all : s.shared.Grows w → t.Backed w → ∀ k, ((s.move i w t).pc k).Backed w := by
    intro grows ht k
    rcases s.move_pc i w t k with ⟨-, eq⟩ | ⟨-, eq⟩ <;> rw [eq]
    · exact ht
    · exact (sure.backed k).mono grows
  have call : ∀ {c : Request I}, c.start s.shared = some (w, t) → Sure lib (s.move i w t) := by
    intro c st
    obtain ⟨grows, rows, ht⟩ := Request.start_spec st
    refine ⟨?_, all grows ht⟩
    intro id y row valid
    rw [Conf.move_shared, rows] at row
    exact (sure.sound id y row valid).mono grows
  have backed := sure.backed i
  cases hpc : s.pc i with
  | running op =>
    rw [hpc] at st backed
    have st : op.step s.shared x = some (w, t) := st
    refine ⟨?_, all (Point.step_grows st) (Point.step_backed backed st)⟩
    apply Point.step_sound sure.sound backed _ st
    intro job r id y eq
    exact current job r id y (by rw [hpc, eq])
  | idle =>
    rw [hpc] at st
    cases x with
    | call c => exact call st
    | _ => cases st
  | returned o =>
    rw [hpc] at st
    cases x with
    | call c => exact call st
    | _ => cases st

/-- A start: no operation is on its way, and what is validated was validated as it is. -/
def Start (lib : YamlLib) (s : Conf (Tables I V) (Task lib I V)) : Prop :=
  (∀ i, s.pc i = .idle) ∧ Sound lib s.shared

/-- While the callback writes no Success on a YAML that is another one by now, a worker reported Success
for every YAML that is validated, as it is. -/
theorem validated_as_is {s₀ s : Conf (Tables I V) (Task lib I V)}
    {tr : List (Event (Task lib I V) (Given I V))} (start : Start lib s₀)
    (run : Run (lobbyMachine lib I V) (UpToDate lib I V) s₀ tr s) : Sound lib s.shared := by
  have sure : Sure lib s := by
    refine run.invariant (I := fun _ s => Sure lib s) ⟨start.2, ?_⟩ ?_
    · intro k
      rw [start.1 k]
      trivial
    · intro tr s i x w t sure current st
      exact sure.step current st
  exact sure.sound

end

/-! ## A late result -/

def easy : String := "name: A\ngame: G\nhard: false"

def hard : String := "name: A\ngame: G\nhard: true"

/-- The libraries, on the two YAMLs above. -/
def sampleLib : YamlLib where
  documents s := [.ok s]
  readYaml s := if s = easy ∨ s = hard then .ok ⟨.name "G", "A"⟩ else .error "missing field `name`"

/-- A room that takes invalid YAMLs. -/
def sampleRoom : Room ℕ := ⟨1, false, true, true⟩

/-- One YAML, not validated so far. -/
def sampleStart : Conf (Tables ℕ ℕ) (Task sampleLib ℕ ℕ) where
  shared := {
    yamls := fun id => if id = 0 then some ⟨easy, none, "G", "A", .unknown, [], 0, none, none⟩ else none
    jobs := []
    reports := [] }
  pc := fun _ => .idle

lemma sampleStart_start : Start sampleLib sampleStart := by
  refine ⟨fun _ => rfl, ?_⟩
  intro id y row valid
  simp only [sampleStart] at row
  split at row
  · cases row
    cases valid
  · cases row

/-- `i` queues YAML 0 for validation. -/
def queueing (i t : ℕ) : List (ℕ × Given ℕ ℕ) :=
  [(i, .call (.queueYamlValidation 0 false)), (i, .room sampleRoom), (i, .apworlds (.ok [])), (i, .go),
    (i, .now t)]

/-- `i` edits YAML 0, and the worker `k` reports `r` on the job `n` of that edit. -/
def editing (i k n t : ℕ) (r : ValidationResult) : List (ℕ × Given ℕ ℕ) :=
  [(i, .call (.editYaml 0 ⟨hard, 7, "B"⟩)), (i, .room sampleRoom), (i, .apworlds (.ok [])), (i, .now t),
    (k, .call (.resolve n r)), (i, .report r), (i, .now (t + 1000))]

/-- The worker `k` reports `r` on job `n`, and the callback writes it. -/
def resolving (k n : ℕ) (r : ValidationResult) : List (ℕ × Given ℕ ℕ) :=
  [(k, .call (.resolve n r)), (k, .go), (k, .room sampleRoom), (k, .go)]

/-- A validation is queued; the YAML is edited to one that fails; then the worker reports that the
old one is valid. -/
def lateSchedule : List (ℕ × Given ℕ ℕ) :=
  queueing 0 5000 ++ editing 1 2 1 6000 refused ++ resolving 3 0 succeeded

lemma easy_not_hard : ¬ SameYaml sampleLib easy hard := by
  intro ⟨doc, ofEasy, ofHard⟩
  have docEasy : documentOf sampleLib easy = some easy := by decide
  have docHard : documentOf sampleLib hard = some hard := by decide
  rw [docEasy, Option.some_inj] at ofEasy
  rw [docHard, Option.some_inj] at ofHard
  have eq : easy = hard := by
    rcases ofEasy with rfl | rfl <;> rcases ofHard with h | h
    · exact h
    · exact h.symm
    · exact h
    · exact h.symm
  exact absurd eq (by decide)

/-- The edited YAML is validated, though no worker reported so: what was found valid is the old one. -/
theorem late_success :
    ∃ tr s, Run (lobbyMachine sampleLib ℕ ℕ) Cond.any sampleStart tr s ∧ Start sampleLib sampleStart ∧
      ¬ Sound sampleLib s.shared := by
  refine ⟨_, _, exec_run_any (l := lateSchedule) (by decide), sampleStart_start, ?_⟩
  intro sound
  set w := (finalOf (lobbyMachine sampleLib ℕ ℕ) sampleStart lateSchedule).shared
  have row : (w.yamls 0).any (fun y => y.validationStatus = .validated ∧ y.currentContent = hard) =
      true := by decide
  have jobs : w.jobs.map (·.params.yaml) = [easy, hard] := by decide
  have reports : w.reports = [(0, succeeded), (1, refused)] := by decide
  obtain ⟨y, hy, h⟩ := (Option.any_eq_true _ _).1 row
  obtain ⟨valid, content⟩ := of_decide_eq_true h
  obtain ⟨n, job, r, hj, hr, success, same⟩ := sound 0 y hy valid
  rw [content] at same
  rw [reports] at hr
  rcases List.mem_cons.1 hr with e | hr
  · cases e
    have text : (w.jobs.map (·.params.yaml))[0]? = some job.params.yaml := by
      rw [List.getElem?_map, hj, Option.map_some]
    rw [jobs] at text
    have old : easy = job.params.yaml := Option.some.inj text
    rw [← old] at same
    exact easy_not_hard same
  · rcases List.mem_cons.1 hr with e | hr
    · cases e
      cases success
    · cases hr

/-- The callback writes a result only while the row has the text of the job. -/
def sameText (s : Conf (Tables ℕ ℕ) (Task sampleLib ℕ ℕ)) (i : ℕ) (x : Given ℕ ℕ) : Bool :=
  match s.pc i, x with
  | .running (.callbackWrite job _ id), .go =>
    (s.shared.yamls id).all fun y => job.params.yaml = y.currentContent
  | _, _ => true

lemma upToDate_of_sameText {tr : List (Event (Task sampleLib ℕ ℕ) (Given ℕ ℕ))}
    {s : Conf (Tables ℕ ℕ) (Task sampleLib ℕ ℕ)} {i : ℕ} {x : Given ℕ ℕ}
    (h : sameText s i x = true) : UpToDate sampleLib ℕ ℕ tr s i x := by
  intro job r id y hpc go _ row
  simp only [sameText, hpc, go, row, Option.all_some, decide_eq_true_eq] at h
  rw [h]
  exact .refl sampleLib _

/-- The YAML is edited, then queued again, and the callback writes the result of that job. -/
def timelySchedule : List (ℕ × Given ℕ ℕ) :=
  editing 0 1 0 5000 refused ++ queueing 2 7000 ++ resolving 3 1 succeeded

/-- After the run above the YAML is validated, and a worker reported so for what it is now. -/
theorem timely_success :
    ∃ w : Tables ℕ ℕ, (w.yamls 0).any (fun y => y.validationStatus = .validated) = true ∧
      ∀ y, w.yamls 0 = some y → y.validationStatus = .validated →
        Reported sampleLib w y.currentContent := by
  refine ⟨(finalOf (lobbyMachine sampleLib ℕ ℕ) sampleStart timelySchedule).shared,
    by decide, ?_⟩
  intro y row valid
  exact validated_as_is sampleStart_start (exec_run_checked upToDate_of_sameText (by decide))
    0 y row valid

end ArchipelagoXL.Lobby
