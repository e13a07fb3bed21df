import ArchipelagoXL.Lib.Interleave
import ArchipelagoXL.Wq.Types

/-!
# The analysis of YAMLs

The pollers that queue the YAMLs without an analysis, one for each version of Archipelago, the requests that
queue a YAML again at once and the callback for what a worker reports (`community-ap-tools/src/jobs.rs`), cut at
each access of the database, of Redis and of the queue, any number of them at once.

A key in Redis says that a YAML has a job. Each time it is taken, it is given a number here, for the record: the
thread that took it and the job that comes of it carry the number. So are the results that were stored, with
their jobs.

Each access can fail, with or without having done what it was to do.
-/

namespace ArchipelagoXL.Tools

open Interleave

/-! ## The tables -/

/-- Rust `YamlAnalysisParams`. -/
structure YamlAnalysisParams (I V : Type) where
  roomId : I
  yamlId : I
  apworlds : List (String × V)
  apVersion : V
deriving DecidableEq

/-- Rust `YamlAnalysisResponse`. -/
structure YamlAnalysisResponse where
  totalChecks : Option ℕ
  startingChecks : Option ℕ
  status : Option String
  genMs : Option ℕ
  error : Option String
deriving DecidableEq

/-- What a worker reports of a job (Rust `JobResult<YamlAnalysisResponse>`). -/
structure AnalysisResult where
  status : Wq.JobStatus
  result : Option YamlAnalysisResponse
deriving DecidableEq

/-- A row of `yaml_analysis_status`. -/
structure AnalysisStatus where
  status : String
  success : ℤ
  totalChecks : ℤ
  startingChecks : ℤ
  genMs : ℤ
deriving DecidableEq

/-- What the tools read of a YAML; the apworlds as what their JSON is read as, if it can be read. -/
structure YamlRow (I V : Type) where
  roomId : I
  yamlId : I
  apworlds : Option (List (String × V))
deriving DecidableEq

inductive JobPhase where
  /-- In the queue or with a worker. -/
  | outstanding
  /-- Its callback runs. -/
  | resolving
  /-- Resolved, or given up past its deadline. -/
  | over_
deriving DecidableEq

/-- A job of the queue, with the number of the key it was queued under. -/
structure AnalysisJob (I V : Type) where
  params : YamlAnalysisParams I V
  priority : Wq.Priority
  ticket : ℕ
  phase : JobPhase
deriving DecidableEq

/-- A result that was stored, for the record. -/
structure StoredResult (I : Type) where
  jobId : ℕ
  yamlId : I
  priority : Wq.Priority
deriving DecidableEq

/-- The tables of the lobby and of the tools, the keys in Redis and the queue; jobs are numbered as they are
queued, and `stores` has the newest result first. -/
structure Desk (I V : Type) where
  yamls : List (YamlRow I V)
  rooms : List (I × V)
  teamRooms : List I
  statuses : I × I → Option AnalysisStatus
  inflight : I → Option ℕ
  nextTicket : ℕ
  jobs : ℕ → Option (AnalysisJob I V)
  nextJob : ℕ
  stores : List (StoredResult I)

/-! ## The operations -/

/-- The points of the operations, each before its next access. -/
inductive AnalysisOp (I V : Type) where
  /-- A pass of `start_unanalyzed_yaml_poller`: the rows are read, and for each the key is taken and the job is
  queued. -/
  | pollRows (base : V)
  | pollAcquire (base : V) (row : YamlRow I V) (rest : List (YamlRow I V))
  | pollEnqueue (base : V) (params : YamlAnalysisParams I V) (ticket : ℕ) (rest : List (YamlRow I V))
  | pollRelease (base : V) (yamlId : I) (ticket : ℕ) (rest : List (YamlRow I V))
  /-- `priority_queue_yaml`. -/
  | reset (roomId yamlId : I) (apVersion : V)
  | clear (roomId yamlId : I) (apVersion : V)
  | readApworlds (roomId yamlId : I) (apVersion : V)
  | acquire (params : YamlAnalysisParams I V)
  | enqueue (params : YamlAnalysisParams I V) (ticket : ℕ)
  | release (yamlId : I) (ticket : ℕ)
  /-- The callback of a result, and the end of `resolve_job` after it. -/
  | connect (jobId : ℕ) (params : YamlAnalysisParams I V) (result : AnalysisResult)
  | store (jobId : ℕ) (params : YamlAnalysisParams I V) (result : AnalysisResult)
      (row : AnalysisStatus)
  | free (jobId : ℕ) (yamlId : I)
  | finish (jobId : ℕ)

/-- What the environment decides. -/
inductive AnalysisInput (I V : Type) where
  /-- The interval of a poller is over. -/
  | tick (base : V)
  | priorityQueueYaml (roomId yamlId : I) (apVersion : V)
  /-- A worker reports the result of a job. -/
  | resolveJob (jobId : ℕ) (result : AnalysisResult)
  /-- The lobby and the teams write their tables. -/
  | tables (yamls : List (YamlRow I V)) (rooms : List (I × V)) (teamRooms : List I)
  /-- The time of a key is up. -/
  | expire (yamlId : I)
  /-- The queue drops a job past its deadline. -/
  | giveUp (jobId : ℕ)
  | go
  /-- The access fails, and has been done or not. -/
  | fail (done : Bool)

/-- Rust `u32 as i32`. -/
def asI32 (n : ℕ) : ℤ := if n < 2 ^ 31 then n else n - 2 ^ 32

/-- The row that a result is stored as, if it is. -/
def storedStatus (result : AnalysisResult) : Option AnalysisStatus :=
  match result.status with
  | .success => result.result.map fun response =>
    { status := response.status.getD "success"
      success := if response.error.any (· ≠ "") then 0 else 1
      totalChecks := asI32 (response.totalChecks.getD 0)
      startingChecks := asI32 (response.startingChecks.getD 0)
      genMs := asI32 (response.genMs.getD 0) }
  | .failure => some ⟨(result.result.bind (·.status)).getD "generic failure", 0, 0, 0, 0⟩
  | .internalError => some ⟨"internal error", 0, 0, 0, 0⟩
  | .pending | .running => none

section
variable {I V : Type} [DecidableEq I] [DecidableEq V]

namespace Desk

/-- Rust `get_unanalyzed_yamls`. -/
def getUnanalyzedYamls (w : Desk I V) (base : V) : List (YamlRow I V) :=
  (w.yamls.filter fun y => w.teamRooms.contains y.roomId && w.rooms.contains (y.roomId, base) &&
    (w.statuses (y.roomId, y.yamlId)).isNone).dedup

/-- A free key is taken. -/
def setKey (w : Desk I V) (yamlId : I) : Desk I V :=
  { w with
    inflight := Function.update w.inflight yamlId (some w.nextTicket)
    nextTicket := w.nextTicket + 1 }

def delKey (w : Desk I V) (yamlId : I) : Desk I V :=
  { w with inflight := Function.update w.inflight yamlId none }

def enqueueJob (w : Desk I V) (params : YamlAnalysisParams I V) (priority : Wq.Priority) (ticket : ℕ) :
    Desk I V :=
  { w with
    jobs := Function.update w.jobs w.nextJob (some ⟨params, priority, ticket, .outstanding⟩)
    nextJob := w.nextJob + 1 }

def setPhase (w : Desk I V) (jobId : ℕ) (phase : JobPhase) : Desk I V :=
  { w with jobs := Function.update w.jobs jobId ((w.jobs jobId).map fun job => { job with phase := phase }) }

def resetStatus (w : Desk I V) (roomId yamlId : I) : Desk I V :=
  { w with statuses := Function.update w.statuses (roomId, yamlId) none }

/-- Rust `set_yaml_analysis_status`. -/
def setStatus (w : Desk I V) (jobId : ℕ) (params : YamlAnalysisParams I V) (row : AnalysisStatus) : Desk I V :=
  { w with
    statuses := Function.update w.statuses (params.roomId, params.yamlId) (some row)
    stores := ⟨jobId, params.yamlId, ((w.jobs jobId).map (·.priority)).getD .normal⟩ :: w.stores }

/-- Whether an access is done that fails or not. -/
def after (w w' : Desk I V) (done : Bool) : Desk I V := if done then w' else w

end Desk

/-- The next row of a poller. -/
def nextRow (base : V) : List (YamlRow I V) → Option (AnalysisOp I V)
  | [] => none
  | row :: rest => some (.pollAcquire base row rest)

/-- What a poller does when it has taken the key. -/
def pollAcquired (base : V) (row : YamlRow I V) (ticket : ℕ) (rest : List (YamlRow I V)) : AnalysisOp I V :=
  match row.apworlds with
  | some apworlds => .pollEnqueue base ⟨row.roomId, row.yamlId, apworlds, base⟩ ticket rest
  | none => .pollRelease base row.yamlId ticket rest

/-- One step of an operation. -/
def AnalysisOp.step (w : Desk I V) : AnalysisOp I V → AnalysisInput I V → Option (Desk I V × Option (AnalysisOp I V))
  | .pollRows base, .go => some (w, nextRow base (w.getUnanalyzedYamls base))
  | .pollRows _, .fail _ => some (w, none)
  | .pollAcquire base row rest, .go =>
    if (w.inflight row.yamlId).isSome then some (w, nextRow base rest)
    else some (w.setKey row.yamlId, some (pollAcquired base row w.nextTicket rest))
  | .pollAcquire base row rest, .fail done =>
    if (w.inflight row.yamlId).isSome then some (w, nextRow base rest)
    else some (w.after (w.setKey row.yamlId) done, nextRow base rest)
  | .pollEnqueue base params ticket rest, .go =>
    some (w.enqueueJob params .normal ticket, nextRow base rest)
  | .pollEnqueue base params ticket rest, .fail done =>
    some (w.after (w.enqueueJob params .normal ticket) done, some (.pollRelease base params.yamlId ticket rest))
  | .pollRelease base yamlId _ rest, .go => some (w.delKey yamlId, nextRow base rest)
  | .pollRelease base yamlId _ rest, .fail done => some (w.after (w.delKey yamlId) done, nextRow base rest)
  | .reset roomId yamlId apVersion, .go =>
    some (w.resetStatus roomId yamlId, some (.clear roomId yamlId apVersion))
  | .reset roomId yamlId _, .fail done => some (w.after (w.resetStatus roomId yamlId) done, none)
  | .clear roomId yamlId apVersion, .go =>
    some (w.delKey yamlId, some (.readApworlds roomId yamlId apVersion))
  | .clear roomId yamlId apVersion, .fail done =>
    some (w.after (w.delKey yamlId) done, some (.readApworlds roomId yamlId apVersion))
  | .readApworlds roomId yamlId apVersion, .go =>
    match (w.yamls.find? fun y => y.yamlId = yamlId).bind (·.apworlds) with
    | some apworlds => some (w, some (.acquire ⟨roomId, yamlId, apworlds, apVersion⟩))
    | none => some (w, none)
  | .readApworlds _ _ _, .fail _ => some (w, none)
  | .acquire params, .go =>
    if (w.inflight params.yamlId).isSome then some (w, none)
    else some (w.setKey params.yamlId, some (.enqueue params w.nextTicket))
  | .acquire params, .fail done =>
    if (w.inflight params.yamlId).isSome then some (w, none)
    else some (w.after (w.setKey params.yamlId) done, none)
  | .enqueue params ticket, .go => some (w.enqueueJob params .high ticket, none)
  | .enqueue params ticket, .fail done =>
    some (w.after (w.enqueueJob params .high ticket) done, some (.release params.yamlId ticket))
  | .release yamlId _, .go => some (w.delKey yamlId, none)
  | .release yamlId _, .fail done => some (w.after (w.delKey yamlId) done, none)
  | .connect jobId params result, .go =>
    match storedStatus result with
    | some row => some (w, some (.store jobId params result row))
    | none => some (w, some (.finish jobId))
  | .connect jobId params _, .fail _ => some (w, some (.free jobId params.yamlId))
  | .store jobId params _ row, .go => some (w.setStatus jobId params row, some (.finish jobId))
  | .store jobId params result row, .fail done =>
    some (w.after (w.setStatus jobId params row) done,
      some (if result.status = .success then .free jobId params.yamlId else .finish jobId))
  | .free jobId yamlId, .go => some (w.delKey yamlId, some (.finish jobId))
  | .free jobId yamlId, .fail done => some (w.after (w.delKey yamlId) done, some (.finish jobId))
  | .finish jobId, .go => some (w.setPhase jobId .over_, none)
  | _, _ => none

/-- The start of an operation, and what goes on beside. -/
def AnalysisInput.start (w : Desk I V) : AnalysisInput I V → Option (Desk I V × Option (AnalysisOp I V))
  | .tick base => some (w, some (.pollRows base))
  | .priorityQueueYaml roomId yamlId apVersion => some (w, some (.reset roomId yamlId apVersion))
  | .resolveJob jobId result =>
    match w.jobs jobId with
    | none => none
    | some job =>
      if job.phase = .outstanding ∧ result.status.isResolved = true then
        some (w.setPhase jobId .resolving, some (.connect jobId job.params result))
      else none
  | .tables yamls rooms teamRooms =>
    some ({ w with yamls := yamls, rooms := rooms, teamRooms := teamRooms }, none)
  | .expire yamlId => some (w.delKey yamlId, none)
  | .giveUp jobId =>
    match w.jobs jobId with
    | none => none
    | some job => if job.phase = .outstanding then some (w.setPhase jobId .over_, none) else none
  | .go | .fail _ => none

namespace AnalysisOp

/-- The key that a thread has taken and not yet passed on to a job. -/
def holds : AnalysisOp I V → Option (I × ℕ)
  | pollEnqueue _ params ticket _ | enqueue params ticket => some (params.yamlId, ticket)
  | pollRelease _ yamlId ticket _ | release yamlId ticket => some (yamlId, ticket)
  | _ => none

/-- The job whose result a thread handles. -/
def resolves : AnalysisOp I V → Option ℕ
  | connect jobId _ _ | store jobId _ _ _ | free jobId _ | finish jobId => some jobId
  | _ => none

/-- The job whose result a thread may still store. -/
def mayStore : AnalysisOp I V → Option (ℕ × YamlAnalysisParams I V)
  | connect jobId params _ | store jobId params _ _ => some (jobId, params)
  | _ => none

/-- The YAML that a request is to queue at once. -/
def asks : AnalysisOp I V → Option I
  | reset _ yamlId _ | clear _ yamlId _ | readApworlds _ yamlId _ => some yamlId
  | acquire params | enqueue params _ => some params.yamlId
  | release yamlId _ => some yamlId
  | _ => none

/-- The YAML whose key a callback is about to set free. -/
def frees : AnalysisOp I V → Option I
  | free _ yamlId => some yamlId
  | _ => none

/-- Neither with a key nor with a result, and about no other YAML than before. -/
structure Rests (op : AnalysisOp I V) (t : Option (AnalysisOp I V)) : Prop where
  holds : t.bind AnalysisOp.holds = none
  resolves : t.bind AnalysisOp.resolves = none
  asks : ∀ y, t.bind AnalysisOp.asks = some y → op.asks = some y

/-- The writes of the operations, and all else. -/
inductive Does (w : Desk I V) : AnalysisOp I V → AnalysisInput I V → Desk I V → Option (AnalysisOp I V) → Prop where
  | rests {op x t} (statuses : I × I → Option AnalysisStatus) :
    op.Rests t → Does w op x { w with statuses := statuses } t
  | take {op x t} (yamlId : I) :
    w.inflight yamlId = none →
    (t.bind AnalysisOp.holds = none ∨ t.bind AnalysisOp.holds = some (yamlId, w.nextTicket)) →
    t.bind AnalysisOp.resolves = none → (∀ y, t.bind AnalysisOp.asks = some y → op.asks = some y) →
    Does w op x (w.setKey yamlId) t
  | drop {op x t} (yamlId : I) :
    (op.asks = some yamlId ∨ op.frees = some yamlId ∨ ∃ ticket, op.holds = some (yamlId, ticket)) →
    t.bind AnalysisOp.holds = none → t.bind AnalysisOp.mayStore = none →
    t.bind AnalysisOp.resolves = op.resolves → (∀ y, t.bind AnalysisOp.asks = some y → op.asks = some y) →
    Does w op x (w.delKey yamlId) t
  | queue {op x t} (params : YamlAnalysisParams I V) (priority : Wq.Priority) (ticket : ℕ) :
    op.holds = some (params.yamlId, ticket) →
    (t.bind AnalysisOp.holds = none ∨ t.bind AnalysisOp.holds = op.holds ∧
      x = .fail true ∧ ((∃ base rest, op = pollEnqueue base params ticket rest) ∨ op.asks = some params.yamlId)) →
    t.bind AnalysisOp.resolves = none → (∀ y, t.bind AnalysisOp.asks = some y → op.asks = some y) →
    Does w op x (w.enqueueJob params priority ticket) t
  | stays {op x t} :
    t.bind AnalysisOp.holds = op.holds → t.bind AnalysisOp.resolves = op.resolves →
    (∀ r, t.bind AnalysisOp.mayStore = some r → op.mayStore = some r) →
    (∀ y, t.bind AnalysisOp.asks = some y → op.asks = some y) → Does w op x w t
  | stores {x t} (jobId params result row) :
    t.bind AnalysisOp.holds = none → t.bind AnalysisOp.resolves = some jobId →
    t.bind AnalysisOp.mayStore = none → t.bind AnalysisOp.asks = none →
    (x = .go ∨ x = .fail true) →
    Does w (store jobId params result row) x (w.setStatus jobId params row) t
  | ends (jobId) : Does w (finish jobId) .go (w.setPhase jobId .over_) none

end AnalysisOp

omit [DecidableEq I] [DecidableEq V] in
lemma nextRow_rests (op : AnalysisOp I V) (base : V) (rest : List (YamlRow I V)) : op.Rests (nextRow base rest) := by
  cases rest with
  | nil => exact ⟨rfl, rfl, fun y none => by cases none⟩
  | cons => exact ⟨rfl, rfl, fun y none => by cases none⟩

omit [DecidableEq I] [DecidableEq V] in
lemma none_rests (op : AnalysisOp I V) : op.Rests none := ⟨rfl, rfl, fun y none => by cases none⟩

variable {w w' : Desk I V} {op : AnalysisOp I V} {x : AnalysisInput I V} {t : Option (AnalysisOp I V)}

omit [DecidableEq V] in
/-- An access that only reads, or is not done. -/
lemma AnalysisOp.Rests.reads (rests : op.Rests t) : op.Does w x w t := .rests w.statuses rests

omit [DecidableEq V] in
lemma AnalysisOp.Rests.drop (rests : op.Rests t) {yamlId : I} (done : Bool)
    (of : op.asks = some yamlId ∨ op.frees = some yamlId ∨ ∃ ticket, op.holds = some (yamlId, ticket))
    (noStore : t.bind AnalysisOp.mayStore = none) (noResult : op.resolves = none) :
    op.Does w x (w.after (w.delKey yamlId) done) t := by
  cases done with
  | true => exact .drop yamlId of rests.holds noStore (rests.resolves.trans noResult.symm) rests.asks
  | false => exact rests.reads

omit [DecidableEq V] in
/-- A key is taken, or seen to be taken. -/
lemma AnalysisOp.Rests.take (rests : op.Rests t) {yamlId : I} (isFree : w.inflight yamlId = none) (done : Bool) :
    op.Does w x (w.after (w.setKey yamlId) done) t := by
  cases done with
  | true => exact .take yamlId isFree (.inl rests.holds) rests.resolves rests.asks
  | false => exact rests.reads

lemma AnalysisOp.step_does (st : op.step w x = some (w', t)) : op.Does w x w' t := by
  cases x with
  | go =>
    cases op with
    | pollRows base =>
      cases st
      exact (nextRow_rests _ _ _).reads
    | pollAcquire base row rest =>
      rw [step] at st
      split at st
      case isTrue =>
        cases st
        exact (nextRow_rests _ _ _).reads
      case isFalse isFree =>
        cases st
        have isFree := Option.not_isSome_iff_eq_none.mp isFree
        rw [pollAcquired]
        split
        · exact .take row.yamlId isFree (.inr rfl) rfl fun y none => by cases none
        · exact .take row.yamlId isFree (.inr rfl) rfl fun y none => by cases none
    | pollEnqueue base params ticket rest =>
      cases st
      have rests := nextRow_rests (pollEnqueue base params ticket rest) base rest
      exact .queue params .normal ticket rfl (.inl rests.holds) rests.resolves rests.asks
    | pollRelease base yamlId ticket rest =>
      cases st
      have rests := nextRow_rests (pollRelease base yamlId ticket rest) base rest
      exact rests.drop true (.inr (.inr ⟨ticket, rfl⟩)) (by cases rest <;> rfl) rfl
    | reset roomId yamlId apVersion =>
      cases st
      exact .rests _ ⟨rfl, rfl, fun y => id⟩
    | clear roomId yamlId apVersion =>
      cases st
      exact .drop yamlId (.inl rfl) rfl rfl rfl fun y => id
    | readApworlds roomId yamlId apVersion =>
      rw [step] at st
      split at st
      · cases st
        exact .stays rfl rfl (fun r => id) fun y => id
      · cases st
        exact (none_rests _).reads
    | acquire params =>
      rw [step] at st
      split at st
      case isTrue =>
        cases st
        exact (none_rests _).reads
      case isFalse isFree =>
        cases st
        exact .take params.yamlId (Option.not_isSome_iff_eq_none.mp isFree) (.inr rfl) rfl fun y => id
    | enqueue params ticket =>
      cases st
      exact .queue params .high ticket rfl (.inl rfl) rfl fun y none => by cases none
    | release yamlId ticket =>
      cases st
      exact (none_rests _).drop true (.inl rfl) rfl rfl
    | connect jobId params result =>
      rw [step] at st
      split at st
      · cases st
        exact .stays rfl rfl (fun r => id) fun y none => by cases none
      · cases st
        exact .stays rfl rfl (fun r none => by cases none) fun y none => by cases none
    | store jobId params result row =>
      cases st
      exact .stores jobId params result row rfl rfl rfl rfl (.inl rfl)
    | free jobId yamlId =>
      cases st
      exact .drop yamlId (.inr (.inl rfl)) rfl rfl rfl fun y none => by cases none
    | finish jobId =>
      cases st
      exact .ends jobId
  | fail done =>
    cases op with
    | pollRows base =>
      cases st
      exact (none_rests _).reads
    | pollAcquire base row rest =>
      rw [step] at st
      split at st
      case isTrue =>
        cases st
        exact (nextRow_rests _ _ _).reads
      case isFalse isFree =>
        cases st
        exact (nextRow_rests _ _ _).take (Option.not_isSome_iff_eq_none.mp isFree) done
    | pollEnqueue base params ticket rest =>
      cases st
      cases done with
      | true =>
        refine .queue params .normal ticket rfl (.inr ⟨rfl, rfl, .inl ⟨base, rest, rfl⟩⟩) rfl ?_
        exact fun y none => by cases none
      | false => exact .stays rfl rfl (fun r none => by cases none) fun y none => by cases none
    | pollRelease base yamlId ticket rest =>
      cases st
      exact (nextRow_rests _ _ _).drop done (.inr (.inr ⟨ticket, rfl⟩)) (by cases rest <;> rfl) rfl
    | reset roomId yamlId apVersion =>
      cases st
      cases done with
      | true => exact .rests _ (none_rests _)
      | false => exact (none_rests _).reads
    | clear roomId yamlId apVersion =>
      cases st
      have rests : (clear roomId yamlId apVersion).Rests (some (readApworlds roomId yamlId apVersion)) :=
        ⟨rfl, rfl, fun y => id⟩
      exact rests.drop done (.inl rfl) rfl rfl
    | readApworlds roomId yamlId apVersion =>
      cases st
      exact (none_rests _).reads
    | acquire params =>
      rw [step] at st
      split at st
      case isTrue =>
        cases st
        exact (none_rests _).reads
      case isFalse isFree =>
        cases st
        exact (none_rests _).take (Option.not_isSome_iff_eq_none.mp isFree) done
    | enqueue params ticket =>
      cases st
      cases done with
      | true => exact .queue params .high ticket rfl (.inr ⟨rfl, rfl, .inr rfl⟩) rfl fun y => id
      | false => exact .stays rfl rfl (fun r none => by cases none) fun y => id
    | release yamlId ticket =>
      cases st
      exact (none_rests _).drop done (.inl rfl) rfl rfl
    | connect jobId params result =>
      cases st
      exact .stays rfl rfl (fun r none => by cases none) fun y none => by cases none
    | store jobId params result row =>
      cases st
      cases done with
      | true =>
        split
        · exact .stores jobId params result row rfl rfl rfl rfl (.inr rfl)
        · exact .stores jobId params result row rfl rfl rfl rfl (.inr rfl)
      | false =>
        split
        · exact .stays rfl rfl (fun r none => by cases none) fun y none => by cases none
        · exact .stays rfl rfl (fun r none => by cases none) fun y none => by cases none
    | free jobId yamlId =>
      cases st
      cases done with
      | true => exact .drop yamlId (.inr (.inl rfl)) rfl rfl rfl fun y none => by cases none
      | false => exact .stays rfl rfl (fun r none => by cases none) fun y none => by cases none
    | finish jobId => cases st
  | _ => cases op <;> cases st

/-! ## The last word -/

/-- A result that is stored after that of a request's job is of no earlier job for the YAML. -/
def Outlasts (newer older : StoredResult I) : Prop :=
  older.priority = .high → newer.yamlId = older.yamlId → older.jobId ≤ newer.jobId

/-- The jobs of a YAML that are not over. -/
def Desk.Unresolved (w : Desk I V) (yamlId : I) (jobId : ℕ) : Prop :=
  ∃ job, w.jobs jobId = some job ∧ job.params.yamlId = yamlId ∧ job.phase ≠ .over_

/-- Once the result of a request's job is stored, no result of an earlier job for the YAML is. -/
def Desk.LastWord (w : Desk I V) : Prop := w.stores.Pairwise Outlasts

/-- What holds along a run. -/
structure Filed (s : Conf (Desk I V) (Option (AnalysisOp I V))) : Prop where
  lastWord : s.shared.LastWord
  jobsKnown : ∀ jobId job, s.shared.jobs jobId = some job → jobId < s.shared.nextJob
  storesKnown : ∀ r ∈ s.shared.stores, r.jobId < s.shared.nextJob
  /-- No job before that of a stored request is left. -/
  left : ∀ r ∈ s.shared.stores, r.priority = .high → ∀ jobId, s.shared.Unresolved r.yamlId jobId → r.jobId ≤ jobId
  resolving : ∀ i jobId, (s.pc i).bind AnalysisOp.resolves = some jobId →
    ∃ job, s.shared.jobs jobId = some job ∧ job.phase = .resolving
  mayStore : ∀ i jobId params, (s.pc i).bind AnalysisOp.mayStore = some (jobId, params) →
    (s.pc i).bind AnalysisOp.resolves = some jobId ∧
      ∃ job, s.shared.jobs jobId = some job ∧ job.params = params
  own : ∀ i k jobId, (s.pc i).bind AnalysisOp.resolves = some jobId →
    (s.pc k).bind AnalysisOp.resolves = some jobId → i = k

omit [DecidableEq I] [DecidableEq V] in
/-- A step of a thread that neither begins nor ends with a result and leaves the jobs that there are. -/
lemma Filed.keep {s : Conf (Desk I V) (Option (AnalysisOp I V))} (filed : Filed s) {i : ℕ} {w' : Desk I V}
    {t : Option (AnalysisOp I V)} (stores : w'.stores = s.shared.stores)
    (jobs : ∀ jobId job, w'.jobs jobId = some job →
      s.shared.jobs jobId = some job ∨ s.shared.nextJob = jobId ∧ jobId < w'.nextJob)
    (kept : ∀ jobId job, s.shared.jobs jobId = some job → w'.jobs jobId = some job)
    (nextJob : s.shared.nextJob ≤ w'.nextJob)
    (resolves : ∀ jobId, t.bind AnalysisOp.resolves = some jobId →
      (s.pc i).bind AnalysisOp.resolves = some jobId)
    (mayStore : ∀ r, t.bind AnalysisOp.mayStore = some r → (s.pc i).bind AnalysisOp.mayStore = some r ∧
      t.bind AnalysisOp.resolves = (s.pc i).bind AnalysisOp.resolves) :
    Filed (s.move i w' t) where
  lastWord := by
    rw [Conf.move_shared, Desk.LastWord, stores]
    exact filed.lastWord
  jobsKnown := by
    intro jobId job found
    rcases jobs jobId job found with before | ⟨_, new⟩
    · exact (filed.jobsKnown jobId job before).trans_le nextJob
    · exact new
  storesKnown := by
    rw [Conf.move_shared, stores]
    exact fun r mem => (filed.storesKnown r mem).trans_le nextJob
  left := by
    rw [Conf.move_shared, stores]
    rintro r mem high jobId ⟨job, found, same, notOver⟩
    rcases jobs jobId job found with before | ⟨new, _⟩
    · exact filed.left r mem high jobId ⟨job, before, same, notOver⟩
    · exact new ▸ (filed.storesKnown r mem).le
  resolving := by
    intro k jobId handles
    have before : ∃ m, (s.pc m).bind AnalysisOp.resolves = some jobId := by
      rcases s.move_pc i w' t k with ⟨rfl, now⟩ | ⟨_, now⟩
      · exact ⟨k, resolves jobId (now ▸ handles)⟩
      · exact ⟨k, now ▸ handles⟩
    obtain ⟨m, handles⟩ := before
    obtain ⟨job, found, phase⟩ := filed.resolving m jobId handles
    exact ⟨job, kept jobId job found, phase⟩
  mayStore := by
    intro k jobId params may
    rcases s.move_pc i w' t k with ⟨rfl, now⟩ | ⟨_, now⟩
    · rw [now] at may ⊢
      obtain ⟨before, same⟩ := mayStore _ may
      obtain ⟨handles, job, found, sameParams⟩ := filed.mayStore k jobId params before
      exact ⟨same.trans handles, job, kept jobId job found, sameParams⟩
    · rw [now] at may ⊢
      obtain ⟨handles, job, found, sameParams⟩ := filed.mayStore k jobId params may
      exact ⟨handles, job, kept jobId job found, sameParams⟩
  own := by
    intro k m jobId handles handles'
    have before : ∀ n, ((s.move i w' t).pc n).bind AnalysisOp.resolves = some jobId →
        (s.pc n).bind AnalysisOp.resolves = some jobId := by
      intro n handles
      rcases s.move_pc i w' t n with ⟨rfl, now⟩ | ⟨_, now⟩
      · exact resolves jobId (now ▸ handles)
      · exact now ▸ handles
    exact filed.own k m jobId (before k handles) (before m handles')

omit [DecidableEq I] [DecidableEq V] in
lemma Desk.jobs_setPhase (w : Desk I V) (jobId : ℕ) (phase : JobPhase) (k : ℕ) :
    (w.setPhase jobId phase).jobs k =
      if k = jobId then (w.jobs jobId).map fun job => { job with phase := phase } else w.jobs k := by
  rw [setPhase]
  exact Function.update_apply _ _ _ _

omit [DecidableEq I] [DecidableEq V] in
/-- A job whose phase is set is still the same job, with the phase. -/
lemma Desk.of_jobs_setPhase {jobId k : ℕ} {phase : JobPhase} {job : AnalysisJob I V}
    (found : (w.setPhase jobId phase).jobs k = some job) :
    ∃ before, w.jobs k = some before ∧ before.params = job.params ∧ before.ticket = job.ticket ∧
      (k ≠ jobId ∧ before = job ∨ k = jobId ∧ job.phase = phase) := by
  rw [jobs_setPhase] at found
  split at found
  case isTrue here =>
    obtain ⟨before, there, made⟩ := Option.map_eq_some_iff.mp found
    rw [here]
    refine ⟨before, there, ?_, ?_, .inr ⟨rfl, ?_⟩⟩
    · rw [← made]
    · rw [← made]
    · rw [← made]
  case isFalse other => exact ⟨job, found, rfl, rfl, .inl ⟨other, rfl⟩⟩

omit [DecidableEq I] [DecidableEq V] in
/-- A step that sets the phase of a job; the thread handles its result afterwards, or nothing, and no other
thread does. -/
lemma Filed.phase {s : Conf (Desk I V) (Option (AnalysisOp I V))} (filed : Filed s) {i jobId : ℕ}
    {phase : JobPhase} {t : Option (AnalysisOp I V)}
    (isOpen : phase ≠ .over_ → ∃ job, s.shared.jobs jobId = some job ∧ job.phase ≠ .over_)
    (others : ∀ k, (s.pc k).bind AnalysisOp.resolves = some jobId → k = i)
    (handles : t = none ∨ phase = .resolving ∧ ∃ job result, s.shared.jobs jobId = some job ∧
      t = some (.connect jobId job.params result)) :
    Filed (s.move i (s.shared.setPhase jobId phase) t) where
  lastWord := filed.lastWord
  jobsKnown := by
    intro k job found
    obtain ⟨before, there, _⟩ := Desk.of_jobs_setPhase found
    exact filed.jobsKnown k before there
  storesKnown := filed.storesKnown
  left := by
    rintro r mem high k ⟨job, found, same, notOver⟩
    apply filed.left r mem high k
    obtain ⟨before, there, params, _, other | ⟨rfl, now⟩⟩ := Desk.of_jobs_setPhase found
    · exact ⟨before, there, by rw [params, same], other.2 ▸ notOver⟩
    · obtain ⟨job', there', notOver'⟩ := isOpen (now ▸ notOver)
      cases there.symm.trans there'
      exact ⟨before, there, by rw [params, same], notOver'⟩
  resolving := by
    intro k j resolves
    rcases s.move_pc i (s.shared.setPhase jobId phase) t k with ⟨rfl, now⟩ | ⟨other, now⟩
    · rw [now] at resolves
      rcases handles with rfl | ⟨rfl, job, result, found, rfl⟩
      · cases resolves
      · cases resolves
        refine ⟨{ job with phase := .resolving }, ?_, rfl⟩
        rw [Conf.move_shared, Desk.jobs_setPhase, if_pos rfl, found]
        rfl
    · rw [now] at resolves
      obtain ⟨job, found, isPhase⟩ := filed.resolving k j resolves
      refine ⟨job, ?_, isPhase⟩
      rw [Conf.move_shared, Desk.jobs_setPhase, if_neg]
      · exact found
      · rintro rfl
        exact other (others k resolves)
  mayStore := by
    intro k j params may
    rcases s.move_pc i (s.shared.setPhase jobId phase) t k with ⟨rfl, now⟩ | ⟨other, now⟩
    · rw [now] at may ⊢
      rcases handles with rfl | ⟨rfl, job, result, found, rfl⟩
      · cases may
      · cases may
        refine ⟨rfl, { job with phase := .resolving }, ?_, rfl⟩
        rw [Conf.move_shared, Desk.jobs_setPhase, if_pos rfl, found]
        rfl
    · rw [now] at may ⊢
      obtain ⟨resolves, job, found, same⟩ := filed.mayStore k j params may
      refine ⟨resolves, job, ?_, same⟩
      rw [Conf.move_shared, Desk.jobs_setPhase, if_neg]
      · exact found
      · rintro rfl
        exact other (others k resolves)
  own := by
    have only : ∀ n j, ((s.move i (s.shared.setPhase jobId phase) t).pc n).bind AnalysisOp.resolves = some j →
        (n = i ∧ j = jobId) ∨ (n ≠ i ∧ (s.pc n).bind AnalysisOp.resolves = some j) := by
      intro n j resolves
      rcases s.move_pc i (s.shared.setPhase jobId phase) t n with ⟨rfl, now⟩ | ⟨other, now⟩
      · rw [now] at resolves
        rcases handles with rfl | ⟨rfl, job, result, found, rfl⟩
        · cases resolves
        · cases resolves
          exact .inl ⟨rfl, rfl⟩
      · exact .inr ⟨other, now ▸ resolves⟩
    intro k m j resolves resolves'
    rcases only k j resolves with ⟨here, same⟩ | ⟨_, handles⟩
    · rcases only m j resolves' with ⟨here', _⟩ | ⟨_, handles'⟩
      · rw [here, here']
      · rw [here]
        exact (others m (same ▸ handles')).symm
    · rcases only m j resolves' with ⟨here, same⟩ | ⟨_, handles'⟩
      · rw [here]
        exact others k (same ▸ handles)
      · exact filed.own k m j handles handles'

omit [DecidableEq V] in
/-- Storing a result keeps the order, if it is not that of a request's job with earlier ones left. -/
lemma Filed.store {s : Conf (Desk I V) (Option (AnalysisOp I V))} (filed : Filed s) {i jobId : ℕ}
    {params : YamlAnalysisParams I V} {row : AnalysisStatus} {t : Option (AnalysisOp I V)}
    (may : (s.pc i).bind AnalysisOp.mayStore = some (jobId, params))
    (last : (∃ job, s.shared.jobs jobId = some job ∧ job.priority = .high) →
      ∀ earlier < jobId, ¬ s.shared.Unresolved params.yamlId earlier)
    (resolves : t.bind AnalysisOp.resolves = some jobId) (noStore : t.bind AnalysisOp.mayStore = none) :
    Filed (s.move i (s.shared.setStatus jobId params row) t) := by
  obtain ⟨handles, job, found, same⟩ := filed.mayStore i jobId params may
  obtain ⟨job', found', isPhase⟩ := filed.resolving i jobId handles
  cases found.symm.trans found'
  have unresolved : s.shared.Unresolved params.yamlId jobId := by
    refine ⟨job, found, by rw [same], ?_⟩
    rw [isPhase]
    exact fun e => by cases e
  have moved : Filed (s.move i s.shared t) := by
    refine filed.keep rfl (fun _ _ there => .inl there) (fun _ _ there => there) le_rfl ?_ ?_
    · intro j handles'
      cases resolves.symm.trans handles'
      exact handles
    · intro r store
      cases noStore.symm.trans store
  have known : jobId < s.shared.nextJob := filed.jobsKnown jobId job found
  have stores : (s.shared.setStatus jobId params row).stores =
      ⟨jobId, params.yamlId, job.priority⟩ :: s.shared.stores := by
    rw [Desk.setStatus, found]
    rfl
  refine ⟨?_, moved.jobsKnown, ?_, ?_, moved.resolving, moved.mayStore, moved.own⟩
  · rw [Conf.move_shared, Desk.LastWord, stores, List.pairwise_cons]
    refine ⟨fun older mem high sameYaml => ?_, filed.lastWord⟩
    rw [show params.yamlId = older.yamlId from sameYaml] at unresolved
    exact filed.left older mem high jobId unresolved
  · rw [Conf.move_shared, stores]
    intro r mem
    rcases List.mem_cons.mp mem with rfl | mem
    · exact known
    · exact filed.storesKnown r mem
  · rw [Conf.move_shared, stores]
    intro r mem high k isLeft
    rcases List.mem_cons.mp mem with rfl | mem
    · exact not_lt.mp fun earlier => last ⟨job, found, high⟩ k earlier isLeft
    · exact filed.left r mem high k isLeft

omit [DecidableEq I] [DecidableEq V] in
lemma Desk.jobs_enqueueJob_of_ne (w : Desk I V) (params : YamlAnalysisParams I V) (priority : Wq.Priority)
    (ticket : ℕ) {k : ℕ} (other : k ≠ w.nextJob) : (w.enqueueJob params priority ticket).jobs k = w.jobs k :=
  Function.update_of_ne other _ _

omit [DecidableEq V] in
/-- A step of an operation that is under way. -/
lemma Filed.op_step {s : Conf (Desk I V) (Option (AnalysisOp I V))} (filed : Filed s) {i : ℕ} (isOp : s.pc i = some op)
    (last : ∀ jobId params result row, op = .store jobId params result row → x = .go ∨ x = .fail true →
      (∃ job, s.shared.jobs jobId = some job ∧ job.priority = .high) →
        ∀ earlier < jobId, ¬ s.shared.Unresolved params.yamlId earlier)
    (does : op.Does s.shared x w' t) : Filed (s.move i w' t) := by
  have storing : ∀ {t : Option (AnalysisOp I V)}, t.bind AnalysisOp.resolves = none →
      t.bind AnalysisOp.mayStore = none := by
    intro t idle
    rcases t with _ | op
    · rfl
    · cases op with
      | connect => cases idle
      | store => cases idle
      | _ => rfl
  have same : ∀ {w' : Desk I V} {t : Option (AnalysisOp I V)}, w'.stores = s.shared.stores →
      w'.jobs = s.shared.jobs → w'.nextJob = s.shared.nextJob →
      (∀ jobId, t.bind AnalysisOp.resolves = some jobId → op.resolves = some jobId) →
      (∀ r, t.bind AnalysisOp.mayStore = some r → op.mayStore = some r ∧
        t.bind AnalysisOp.resolves = op.resolves) → Filed (s.move i w' t) := by
    intro w' t stores jobs nextJob resolves mayStore
    apply filed.keep stores
    · intro j job there
      exact .inl (jobs ▸ there)
    · intro j job there
      exact jobs ▸ there
    · exact nextJob.ge
    · rw [isOp]
      exact resolves
    · rw [isOp]
      exact mayStore
  cases does with
  | rests statuses rests =>
    refine same rfl rfl rfl (fun j handles => ?_) fun r store => ?_
    · cases rests.resolves.symm.trans handles
    · cases (storing rests.resolves).symm.trans store
  | take yamlId _ _ idle _ =>
    refine same rfl rfl rfl (fun j handles => ?_) fun r store => ?_
    · cases idle.symm.trans handles
    · cases (storing idle).symm.trans store
  | drop yamlId _ _ noStore resolves _ =>
    refine same rfl rfl rfl (fun j handles => resolves ▸ handles) fun r store => ?_
    cases noStore.symm.trans store
  | stays _ resolves mayStore _ =>
    exact same rfl rfl rfl (fun j handles => resolves ▸ handles) fun r store => ⟨mayStore r store, resolves⟩
  | queue params priority ticket _ _ idle _ =>
    refine filed.keep rfl ?_ ?_ (Nat.le_succ _) (fun j handles => ?_) fun r store => ?_
    · intro j job there
      rcases eq_or_ne j s.shared.nextJob with rfl | other
      · exact .inr ⟨rfl, Nat.lt_succ_self _⟩
      · exact .inl (by rwa [Desk.jobs_enqueueJob_of_ne _ _ _ _ other] at there)
    · intro j job there
      rw [Desk.jobs_enqueueJob_of_ne _ _ _ _ (filed.jobsKnown j job there).ne]
      exact there
    · cases idle.symm.trans handles
    · cases (storing idle).symm.trans store
  | stores jobId params result row _ resolves noStore _ done =>
    have may : (s.pc i).bind AnalysisOp.mayStore = some (jobId, params) := by
      rw [isOp]
      rfl
    exact filed.store may (last jobId params result row rfl done) resolves noStore
  | ends jobId =>
    have handles : (s.pc i).bind AnalysisOp.resolves = some jobId := by
      rw [isOp]
      rfl
    refine filed.phase (fun notOver => absurd rfl notOver) (fun k handles' => ?_) (.inl rfl)
    exact filed.own k i jobId handles' handles

omit [DecidableEq V] in
/-- The start of an operation, or what goes on beside. -/
lemma Filed.start {s : Conf (Desk I V) (Option (AnalysisOp I V))} (filed : Filed s) {i : ℕ}
    (st : x.start s.shared = some (w', t)) : Filed (s.move i w' t) := by
  have same : ∀ {w' : Desk I V} {t : Option (AnalysisOp I V)}, w'.stores = s.shared.stores →
      w'.jobs = s.shared.jobs → w'.nextJob = s.shared.nextJob → t.bind AnalysisOp.resolves = none →
      t.bind AnalysisOp.mayStore = none → Filed (s.move i w' t) := by
    intro w' t stores jobs nextJob noResult noStore
    refine filed.keep stores ?_ ?_ nextJob.ge (fun j handles => ?_) fun r store => ?_
    · intro j job there
      exact .inl (jobs ▸ there)
    · intro j job there
      exact jobs ▸ there
    · cases noResult.symm.trans handles
    · cases noStore.symm.trans store
  -- the result of a job that is outstanding is handled by no thread
  have unhandled : ∀ {jobId : ℕ} {job : AnalysisJob I V}, s.shared.jobs jobId = some job →
      job.phase = .outstanding → ∀ k, (s.pc k).bind AnalysisOp.resolves = some jobId → k = i := by
    intro jobId job found isPhase k handles
    obtain ⟨job', found', isPhase'⟩ := filed.resolving k jobId handles
    cases found.symm.trans found'
    cases isPhase.symm.trans isPhase'
  cases x with
  | tick base =>
    cases st
    exact same rfl rfl rfl rfl rfl
  | priorityQueueYaml roomId yamlId apVersion =>
    cases st
    exact same rfl rfl rfl rfl rfl
  | tables yamls rooms teamRooms =>
    cases st
    exact same rfl rfl rfl rfl rfl
  | expire yamlId =>
    cases st
    exact same rfl rfl rfl rfl rfl
  | resolveJob jobId result =>
    rw [AnalysisInput.start] at st
    split at st
    · cases st
    · rename_i job found
      split at st
      · rename_i isOpen
        cases st
        refine filed.phase (fun _ => ⟨job, found, ?_⟩) (unhandled found isOpen.1) (.inr ⟨rfl, job, result, found, rfl⟩)
        rw [isOpen.1]
        exact fun e => by cases e
      · cases st
  | giveUp jobId =>
    rw [AnalysisInput.start] at st
    split at st
    · cases st
    · rename_i job found
      split at st
      · rename_i isOpen
        cases st
        exact filed.phase (fun notOver => absurd rfl notOver) (unhandled found isOpen) (.inl rfl)
      · cases st
  | go => cases st
  | fail done => cases st

/-- The jobs of a YAML that are not over, with the number of their key. -/
def Desk.Working (w : Desk I V) (yamlId : I) (ticket jobId : ℕ) : Prop :=
  ∃ job, w.jobs jobId = some job ∧ job.params.yamlId = yamlId ∧ job.ticket = ticket ∧ job.phase ≠ .over_

/-- A thread still has the key with the number to pass on, or a job that was queued under it is not over. -/
def InUse (s : Conf (Desk I V) (Option (AnalysisOp I V))) (yamlId : I) (ticket : ℕ) : Prop :=
  (∃ i, (s.pc i).bind AnalysisOp.holds = some (yamlId, ticket)) ∨ ∃ jobId, s.shared.Working yamlId ticket jobId

/-- The steps that do not lose the key of a YAML: no request queues it, its key outlives its job, no job is
queued by an access that reports a failure, and a callback that sets the key free has failed for another one. -/
def KeyKept (yamlId : I) : Cond (Desk I V) (Option (AnalysisOp I V)) (AnalysisInput I V) :=
  fun _ s i x =>
    match s.pc i, x with
    | none, .priorityQueueYaml _ y _ => y ≠ yamlId
    | none, .expire y => y = yamlId → ∀ ticket, s.shared.inflight yamlId = some ticket → ¬ InUse s yamlId ticket
    | some (.pollEnqueue _ params _ _), .fail true => params.yamlId ≠ yamlId
    | some (.connect _ params _), .fail _ => params.yamlId ≠ yamlId
    | some (.store _ params result _), .fail _ => result.status = .success → params.yamlId ≠ yamlId
    | _, _ => True

omit [DecidableEq I] [DecidableEq V] in
lemma Desk.Unresolved.working {w : Desk I V} {yamlId : I} {jobId : ℕ} (unresolved : w.Unresolved yamlId jobId) :
    ∃ ticket, w.Working yamlId ticket jobId := by
  obtain ⟨job, found, same, notOver⟩ := unresolved
  exact ⟨job.ticket, job, found, same, rfl, notOver⟩

/-- The key is set as long as a thread or a job has it, and only one of them does. -/
structure Keyed (yamlId : I) (s : Conf (Desk I V) (Option (AnalysisOp I V))) : Prop where
  noAsk : ∀ i, (s.pc i).bind AnalysisOp.asks ≠ some yamlId
  noFree : ∀ i, (s.pc i).bind AnalysisOp.frees ≠ some yamlId
  held : ∀ i ticket, (s.pc i).bind AnalysisOp.holds = some (yamlId, ticket) → s.shared.inflight yamlId = some ticket
  queued : ∀ ticket jobId, s.shared.Working yamlId ticket jobId → s.shared.inflight yamlId = some ticket
  oneThread : ∀ i k ticket ticket', (s.pc i).bind AnalysisOp.holds = some (yamlId, ticket) →
    (s.pc k).bind AnalysisOp.holds = some (yamlId, ticket') → i = k
  threadOrJob : ∀ i ticket, (s.pc i).bind AnalysisOp.holds = some (yamlId, ticket) →
    ∀ ticket' jobId, ¬ s.shared.Working yamlId ticket' jobId
  oneJob : ∀ ticket ticket' jobId jobId', s.shared.Working yamlId ticket jobId →
    s.shared.Working yamlId ticket' jobId' → jobId = jobId'

section
variable {yamlId : I} {s : Conf (Desk I V) (Option (AnalysisOp I V))} {i : ℕ}

omit [DecidableEq I] [DecidableEq V] in
lemma move_bind_ne {β : Type} {f : AnalysisOp I V → Option β} {b : β} (all : ∀ k, (s.pc k).bind f ≠ some b)
    (own : t.bind f ≠ some b) (k : ℕ) : ((s.move i w' t).pc k).bind f ≠ some b := by
  rcases s.move_pc i w' t k with ⟨_, now⟩ | ⟨_, now⟩
  · rw [now]
    exact own
  · rw [now]
    exact all k

omit [DecidableEq I] [DecidableEq V] in
/-- A step that leaves the key as it is and takes no part in it that it had not. -/
lemma Keyed.keep (keyed : Keyed yamlId s) (asks : t.bind AnalysisOp.asks ≠ some yamlId)
    (frees : t.bind AnalysisOp.frees ≠ some yamlId) (inflight : w'.inflight yamlId = s.shared.inflight yamlId)
    (holds : ∀ ticket, t.bind AnalysisOp.holds = some (yamlId, ticket) →
      (s.pc i).bind AnalysisOp.holds = some (yamlId, ticket))
    (jobs : ∀ ticket jobId, w'.Working yamlId ticket jobId → s.shared.Working yamlId ticket jobId) :
    Keyed yamlId (s.move i w' t) := by
  have before : ∀ k ticket, ((s.move i w' t).pc k).bind AnalysisOp.holds = some (yamlId, ticket) →
      (s.pc k).bind AnalysisOp.holds = some (yamlId, ticket) := by
    intro k ticket has
    rcases s.move_pc i w' t k with ⟨rfl, now⟩ | ⟨_, now⟩
    · exact holds ticket (now ▸ has)
    · exact now ▸ has
  refine ⟨move_bind_ne keyed.noAsk asks, move_bind_ne keyed.noFree frees, ?_, ?_, ?_, ?_, ?_⟩
  · intro k ticket has
    exact inflight.trans (keyed.held k ticket (before k ticket has))
  · intro ticket jobId working
    exact inflight.trans (keyed.queued ticket jobId (jobs ticket jobId working))
  · intro k m ticket ticket' has has'
    exact keyed.oneThread k m ticket ticket' (before k ticket has) (before m ticket' has')
  · intro k ticket has ticket' jobId working
    exact keyed.threadOrJob k ticket (before k ticket has) ticket' jobId (jobs ticket' jobId working)
  · intro ticket ticket' j j' working working'
    exact keyed.oneJob ticket ticket' j j' (jobs ticket j working) (jobs ticket' j' working')

omit [DecidableEq V] in
/-- A free key that is taken was with nobody. -/
lemma Keyed.take (keyed : Keyed yamlId s) (asks : t.bind AnalysisOp.asks ≠ some yamlId)
    (frees : t.bind AnalysisOp.frees ≠ some yamlId) (isFree : s.shared.inflight yamlId = none)
    (holds : t.bind AnalysisOp.holds = none ∨ t.bind AnalysisOp.holds = some (yamlId, s.shared.nextTicket)) :
    Keyed yamlId (s.move i (s.shared.setKey yamlId) t) := by
  have noJob : ∀ ticket jobId, ¬ (s.shared.setKey yamlId).Working yamlId ticket jobId := by
    intro ticket jobId working
    cases isFree.symm.trans (keyed.queued ticket jobId working)
  have holder : ∀ k ticket, ((s.move i (s.shared.setKey yamlId) t).pc k).bind AnalysisOp.holds =
      some (yamlId, ticket) → k = i ∧ ticket = s.shared.nextTicket := by
    intro k ticket has
    rcases s.move_pc i (s.shared.setKey yamlId) t k with ⟨here, now⟩ | ⟨_, now⟩
    · rw [now] at has
      rcases holds with isNone | own
      · cases isNone.symm.trans has
      · cases own.symm.trans has
        exact ⟨here, rfl⟩
    · cases isFree.symm.trans (keyed.held k ticket (now ▸ has))
  refine ⟨move_bind_ne keyed.noAsk asks, move_bind_ne keyed.noFree frees, ?_, ?_, ?_, ?_, ?_⟩
  · intro k ticket has
    rw [(holder k ticket has).2]
    exact Function.update_self _ _ _
  · exact fun ticket jobId working => absurd working (noJob ticket jobId)
  · intro k m ticket ticket' has has'
    rw [(holder k ticket has).1, (holder m ticket' has').1]
  · exact fun _ _ _ => noJob
  · exact fun ticket _ jobId _ working => absurd working (noJob ticket jobId)

omit [DecidableEq I] [DecidableEq V] in
/-- The one thread that has the key passes it on, to a job or to nobody. -/
lemma Keyed.pass (keyed : Keyed yamlId s) {ticket : ℕ} (asks : t.bind AnalysisOp.asks ≠ some yamlId)
    (frees : t.bind AnalysisOp.frees ≠ some yamlId)
    (holder : (s.pc i).bind AnalysisOp.holds = some (yamlId, ticket)) (passed : t.bind AnalysisOp.holds = none)
    (jobId : ℕ) (jobs : ∀ ticket' k, w'.Working yamlId ticket' k →
      s.shared.Working yamlId ticket' k ∨ k = jobId ∧ w'.inflight yamlId = some ticket') :
    Keyed yamlId (s.move i w' t) := by
  have nobody : ∀ k ticket', ((s.move i w' t).pc k).bind AnalysisOp.holds ≠ some (yamlId, ticket') := by
    intro k ticket' has
    rcases s.move_pc i w' t k with ⟨_, now⟩ | ⟨other, now⟩
    · cases passed.symm.trans (now ▸ has)
    · exact other (keyed.oneThread k i ticket' ticket (now ▸ has) holder)
  have only : ∀ ticket' k, w'.Working yamlId ticket' k → k = jobId ∧ w'.inflight yamlId = some ticket' := by
    intro ticket' k working
    exact (jobs ticket' k working).resolve_left (keyed.threadOrJob i ticket holder ticket' k)
  refine ⟨move_bind_ne keyed.noAsk asks, move_bind_ne keyed.noFree frees, ?_, ?_, ?_, ?_, ?_⟩
  · exact fun k ticket' has => absurd has (nobody k ticket')
  · exact fun ticket' k working => (only ticket' k working).2
  · exact fun k _ ticket' _ has => absurd has (nobody k ticket')
  · exact fun k ticket' has => absurd has (nobody k ticket')
  · intro ticket' ticket'' k m working working'
    rw [(only ticket' k working).1, (only ticket'' m working').1]

omit [DecidableEq I] [DecidableEq V] in
lemma Desk.working_setPhase {jobId k ticket : ℕ} {phase : JobPhase}
    (isOpen : phase ≠ .over_ → ∃ job, w.jobs jobId = some job ∧ job.phase ≠ .over_)
    (working : (w.setPhase jobId phase).Working yamlId ticket k) : w.Working yamlId ticket k := by
  obtain ⟨job, found, same, own, notOver⟩ := working
  obtain ⟨before, there, params, key, other | ⟨rfl, now⟩⟩ := Desk.of_jobs_setPhase found
  · exact ⟨before, there, by rw [params, same], key.trans own, other.2 ▸ notOver⟩
  · obtain ⟨job', there', notOver'⟩ := isOpen (now ▸ notOver)
    cases there.symm.trans there'
    exact ⟨before, there, by rw [params, same], key.trans own, notOver'⟩

/-- Only a callback that fails goes on to set a key free. -/
lemma AnalysisOp.step_frees (st : op.step w x = some (w', t)) (frees : t.bind AnalysisOp.frees = some yamlId) :
    (∃ jobId params result done, op = connect jobId params result ∧ x = .fail done ∧ params.yamlId = yamlId) ∨
    (∃ jobId params result row done, op = store jobId params result row ∧ x = .fail done ∧
      result.status = .success ∧ params.yamlId = yamlId) := by
  have noRow : ∀ (base : V) (rest : List (YamlRow I V)), (nextRow base rest).bind AnalysisOp.frees = none := by
    intro base rest
    cases rest <;> rfl
  have noAcquired : ∀ (base : V) (row : YamlRow I V) ticket rest, (pollAcquired base row ticket rest).frees = none := by
    intro base row ticket rest
    rw [pollAcquired]
    split <;> rfl
  cases op with
  | connect jobId params result =>
    cases x with
    | go =>
      rw [step] at st
      split at st <;> cases st <;> cases frees
    | fail done =>
      cases st
      cases frees
      exact .inl ⟨jobId, params, result, done, rfl, rfl, rfl⟩
    | _ => cases st
  | store jobId params result row =>
    cases x with
    | go =>
      cases st
      cases frees
    | fail done =>
      cases st
      split at frees
      · rename_i success
        cases frees
        exact .inr ⟨jobId, params, result, row, done, rfl, rfl, success, rfl⟩
      · cases frees
    | _ => cases st
  | pollRows base =>
    cases x with
    | go =>
      cases st
      cases (noRow _ _).symm.trans frees
    | fail =>
      cases st
      cases frees
    | _ => cases st
  | pollAcquire base row rest =>
    cases x with
    | go =>
      rw [step] at st
      split at st
      · cases st
        cases (noRow _ _).symm.trans frees
      · cases st
        cases (noAcquired _ _ _ _).symm.trans frees
    | fail done =>
      rw [step] at st
      split at st <;> cases st <;> cases (noRow _ _).symm.trans frees
    | _ => cases st
  | pollEnqueue base params ticket rest =>
    cases x with
    | go =>
      cases st
      cases (noRow _ _).symm.trans frees
    | fail =>
      cases st
      cases frees
    | _ => cases st
  | pollRelease base y ticket rest =>
    cases x with
    | go =>
      cases st
      cases (noRow _ _).symm.trans frees
    | fail =>
      cases st
      cases (noRow _ _).symm.trans frees
    | _ => cases st
  | readApworlds roomId y apVersion =>
    cases x with
    | go =>
      rw [step] at st
      split at st <;> cases st <;> cases frees
    | fail =>
      cases st
      cases frees
    | _ => cases st
  | acquire params =>
    cases x with
    | go =>
      rw [step] at st
      split at st <;> cases st <;> cases frees
    | fail =>
      rw [step] at st
      split at st <;> cases st <;> cases frees
    | _ => cases st
  | finish jobId =>
    cases x with
    | go =>
      cases st
      cases frees
    | _ => cases st
  | _ =>
    cases x with
    | go =>
      cases st
      cases frees
    | fail =>
      cases st
      cases frees
    | _ => cases st

lemma Keyed.op_step (keyed : Keyed yamlId s) (isOp : s.pc i = some op)
    {tr : List (Event (Option (AnalysisOp I V)) (AnalysisInput I V))} (kept : KeyKept yamlId tr s i x)
    (st : op.step s.shared x = some (w', t)) : Keyed yamlId (s.move i w' t) := by
  simp only [KeyKept, isOp] at kept
  have noAsk : op.asks ≠ some yamlId := by
    have := keyed.noAsk i
    rwa [isOp] at this
  have noFree : op.frees ≠ some yamlId := by
    have := keyed.noFree i
    rwa [isOp] at this
  have frees : t.bind AnalysisOp.frees ≠ some yamlId := by
    intro frees
    rcases AnalysisOp.step_frees st frees with ⟨j, params, result, done, rfl, rfl, same⟩ |
      ⟨j, params, result, row, done, rfl, rfl, success, same⟩
    · exact kept same
    · exact kept success same
  have holds : (s.pc i).bind AnalysisOp.holds = op.holds := by rw [isOp, Option.bind_some]
  cases AnalysisOp.step_does st with
  | rests statuses rests =>
    refine keyed.keep (fun asks => noAsk (rests.asks _ asks)) frees rfl (fun ticket has => ?_) fun _ _ => id
    cases rests.holds.symm.trans has
  | take y isFree own _ asks =>
    have asks : t.bind AnalysisOp.asks ≠ some yamlId := fun asks' => noAsk (asks _ asks')
    rcases eq_or_ne y yamlId with rfl | other
    · exact keyed.take asks frees isFree own
    · refine keyed.keep asks frees (Function.update_of_ne other.symm _ _) (fun ticket has => ?_) fun _ _ => id
      rcases own with isNone | own
      · cases isNone.symm.trans has
      · cases own.symm.trans has
        exact absurd rfl other
  | drop y of passed _ _ asks =>
    have asks : t.bind AnalysisOp.asks ≠ some yamlId := fun asks' => noAsk (asks _ asks')
    rcases eq_or_ne y yamlId with rfl | other
    · obtain ⟨ticket, holder⟩ := (of.resolve_left noAsk).resolve_left noFree
      exact keyed.pass asks frees (holds.trans holder) passed 0 fun ticket' k working => .inl working
    · refine keyed.keep asks frees (Function.update_of_ne other.symm _ _) (fun ticket has => ?_) fun _ _ => id
      cases passed.symm.trans has
  | queue params priority ticket holder passed _ asks =>
    have asks : t.bind AnalysisOp.asks ≠ some yamlId := fun asks' => noAsk (asks _ asks')
    have jobs : ∀ ticket' k, (s.shared.enqueueJob params priority ticket).Working yamlId ticket' k →
        s.shared.Working yamlId ticket' k ∨
          k = s.shared.nextJob ∧ params.yamlId = yamlId ∧ ticket' = ticket := by
      rintro ticket' k ⟨job, found, same, own, notOver⟩
      rcases eq_or_ne k s.shared.nextJob with rfl | other
      · have isNew : (s.shared.enqueueJob params priority ticket).jobs s.shared.nextJob =
            some ⟨params, priority, ticket, .outstanding⟩ := Function.update_self _ _ _
        cases isNew.symm.trans found
        exact .inr ⟨rfl, same, own.symm⟩
      · rw [Desk.jobs_enqueueJob_of_ne _ _ _ _ other] at found
        exact .inl ⟨job, found, same, own, notOver⟩
    rcases eq_or_ne params.yamlId yamlId with rfl | other
    · have holder := holds.trans holder
      rcases passed with passed | ⟨_, rfl, ⟨base, rest, rfl⟩ | asked⟩
      · refine keyed.pass asks frees holder passed s.shared.nextJob fun ticket' k working => ?_
        rcases jobs ticket' k working with before | ⟨rfl, _, rfl⟩
        · exact .inl before
        · exact .inr ⟨rfl, keyed.held i _ holder⟩
      · exact absurd rfl kept
      · exact absurd asked noAsk
    · refine keyed.keep asks frees rfl (fun ticket' has => ?_) fun ticket' k working => ?_
      · rcases passed with passed | ⟨same, _⟩
        · cases passed.symm.trans has
        · rw [holds, ← same]
          exact has
      · exact (jobs ticket' k working).resolve_right fun new => other new.2.1
  | stays own _ _ asks =>
    refine keyed.keep (fun asks' => noAsk (asks _ asks')) frees rfl (fun ticket has => ?_) fun _ _ => id
    rw [holds, ← own]
    exact has
  | stores jobId params result row own _ _ asks _ =>
    refine keyed.keep (fun asks' => ?_) frees rfl (fun ticket has => ?_) fun _ _ => id
    · cases asks.symm.trans asks'
    · cases own.symm.trans has
  | ends jobId =>
    refine keyed.keep (fun none => by cases none) frees rfl (fun ticket none => by cases none) fun ticket k => ?_
    exact Desk.working_setPhase fun notOver => absurd rfl notOver

omit [DecidableEq V] in
lemma Keyed.start (keyed : Keyed yamlId s) (idle : s.pc i = none)
    {tr : List (Event (Option (AnalysisOp I V)) (AnalysisInput I V))} (kept : KeyKept yamlId tr s i x)
    (st : x.start s.shared = some (w', t)) : Keyed yamlId (s.move i w' t) := by
  simp only [KeyKept, idle] at kept
  cases x with
  | tick base =>
    cases st
    exact keyed.keep (fun e => by cases e) (fun e => by cases e) rfl (fun ticket e => by cases e) fun _ _ => id
  | priorityQueueYaml roomId y apVersion =>
    cases st
    refine keyed.keep (fun asks => ?_) (fun e => by cases e) rfl (fun ticket e => by cases e) fun _ _ => id
    cases asks
    exact kept rfl
  | tables yamls rooms teamRooms =>
    cases st
    exact keyed.keep (fun e => by cases e) (fun e => by cases e) rfl (fun ticket e => by cases e) fun _ _ => id
  | expire y =>
    cases st
    rcases eq_or_ne y yamlId with rfl | other
    · have unused : ∀ ticket, ¬ InUse s y ticket := by
        intro ticket inUse
        have isSet : s.shared.inflight y = some ticket := by
          rcases inUse with ⟨k, has⟩ | ⟨jobId, working⟩
          · exact keyed.held k ticket has
          · exact keyed.queued ticket jobId working
        exact kept rfl ticket isSet inUse
      have nobody : ∀ k ticket, ((s.move i (s.shared.delKey y) none).pc k).bind AnalysisOp.holds ≠
          some (y, ticket) := by
        intro k ticket has
        rcases s.move_pc i (s.shared.delKey y) none k with ⟨_, now⟩ | ⟨_, now⟩
        · cases now ▸ has
        · exact unused ticket (.inl ⟨k, now ▸ has⟩)
      have noJob : ∀ ticket jobId, ¬ (s.shared.delKey y).Working y ticket jobId :=
        fun ticket jobId working => unused ticket (.inr ⟨jobId, working⟩)
      refine ⟨move_bind_ne keyed.noAsk (fun e => by cases e), move_bind_ne keyed.noFree (fun e => by cases e), ?_, ?_,
        ?_, ?_, ?_⟩
      · exact fun k ticket has => absurd has (nobody k ticket)
      · exact fun ticket jobId working => absurd working (noJob ticket jobId)
      · exact fun k _ ticket _ has => absurd has (nobody k ticket)
      · exact fun k ticket has => absurd has (nobody k ticket)
      · exact fun ticket _ jobId _ working => absurd working (noJob ticket jobId)
    · exact keyed.keep (fun e => by cases e) (fun e => by cases e) (Function.update_of_ne other.symm _ _)
        (fun ticket e => by cases e) fun _ _ => id
  | resolveJob jobId result =>
    rw [AnalysisInput.start] at st
    split at st
    · cases st
    · rename_i job found
      split at st
      · rename_i isOpen
        cases st
        refine keyed.keep (fun e => by cases e) (fun e => by cases e) rfl (fun ticket e => by cases e) fun _ _ => ?_
        refine Desk.working_setPhase fun _ => ⟨job, found, ?_⟩
        rw [isOpen.1]
        exact fun e => by cases e
      · cases st
  | giveUp jobId =>
    rw [AnalysisInput.start] at st
    split at st
    · cases st
    · split at st
      · cases st
        refine keyed.keep (fun e => by cases e) (fun e => by cases e) rfl (fun ticket e => by cases e) fun _ _ => ?_
        exact Desk.working_setPhase fun notOver => absurd rfl notOver
      · cases st
  | go => cases st
  | fail done => cases st

end

end

/-- One YAML of one room, for one version. -/
def oneYaml : Conf (Desk ℕ ℕ) (Option (AnalysisOp ℕ ℕ)) :=
  ⟨⟨[⟨1, 7, some []⟩], [(1, 4)], [1], fun _ => none, fun _ => none, 0, fun _ => none, 0, []⟩, fun _ => none⟩

end ArchipelagoXL.Tools
