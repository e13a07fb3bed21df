import ArchipelagoXL.Lib.Redis
import ArchipelagoXL.Lib.Uuid

/-!
# The data of a work queue

Model of the types of `wq/src/lib.rs`, `claim.rs` and `result.rs`: priorities, statuses, job ids,
descriptions, claims, results and errors, and the check of a partition's name.

Parameters and results are kept as the JSON text they are stored as. A description, a claim or a
result is stored as a whole; only whether its parameters or its result can be read back as the type of
a given queue is left open (`WorkQueue.parsesParams`, `WorkQueue.parsesResult`). Times are
nanoseconds.
-/

namespace ArchipelagoXL.Wq

/-- Rust `Priority`. -/
inductive Priority where
  | high
  | normal
  | low
deriving DecidableEq

/-- The score a priority is stored as (Rust `priority as i8`). -/
def Priority.score : Priority → ℤ
  | .high => -10
  | .normal => -5
  | .low => -1

/-- Reading a score back (Rust `Priority::from_redis_value`). -/
def Priority.ofScore : ℤ → Option Priority
  | -10 => some .high
  | -5 => some .normal
  | -1 => some .low
  | _ => none

@[simp] lemma Priority.ofScore_score (p : Priority) : Priority.ofScore p.score = some p := by
  cases p <;> rfl

/-- Rust `JobStatus`. -/
inductive JobStatus where
  | pending
  | running
  | success
  | failure
  | internalError
deriving DecidableEq

namespace JobStatus

/-- Rust `status as u8`. -/
def code : JobStatus → ℕ
  | .pending => 0
  | .running => 1
  | .success => 10
  | .failure => 11
  | .internalError => 12

/-- The decimal text of the code, as it is published. -/
def text : JobStatus → String
  | .pending => "0"
  | .running => "1"
  | .success => "10"
  | .failure => "11"
  | .internalError => "12"

/-- Rust `JobStatus::try_from`. -/
def tryFrom : ℕ → Option JobStatus
  | 0 => some .pending
  | 1 => some .running
  | 10 => some .success
  | 11 => some .failure
  | 12 => some .internalError
  | _ => none

/-- Rust `is_resolved`. -/
def isResolved : JobStatus → Bool
  | .success | .failure | .internalError => true
  | .pending | .running => false

/-- Rust `as_stat_name`; the source asserts that the status is a resolved one. -/
def asStatName : JobStatus → String
  | .success => "succeeded"
  | .failure => "failed"
  | .internalError => "errored"
  | .pending | .running => ""

@[simp] lemma tryFrom_code (s : JobStatus) : tryFrom s.code = some s := by
  cases s <;> rfl

end JobStatus

/-- Reading a byte from its decimal text (Rust `parse::<u8>`). -/
def parseU8 (s : String) : Option ℕ :=
  let l := if s.toList.head? = some '+' then s.toList.tail else s.toList
  let value : Option ℕ :=
    l.foldlM (fun a (c : Char) => if c.isDigit then some (a * 10 + (c.toNat - 48)) else none) 0
  if l = [] then none else value.filter (· < 256)

@[simp] lemma parseU8_text (s : JobStatus) : parseU8 s.text = some s.code := by
  cases s <;> decide

/-- Rust `JobId`. -/
abbrev JobId := Uuid

instance : Redis.HasText JobId := ⟨Uuid.text⟩

/-- A stored job description (Rust `JobDesc`), its parameters as JSON. -/
structure JobDesc where
  params : String
  submittedAt : ℤ
  deadline : ℤ
  partition : Option String
deriving DecidableEq

/-- What a claiming worker is given (Rust `Job`). -/
structure Job where
  jobId : JobId
  params : String
deriving DecidableEq

/-- Rust `Claim`. -/
structure Claim where
  jobId : JobId
  priority : Priority
  workerId : String
  time : ℤ
  partition : Option String
deriving DecidableEq

/-- Rust `JobResult`, the result as JSON. -/
structure JobResult where
  status : JobStatus
  result : Option String
deriving DecidableEq

/-- Rust `WorkQueueError`. -/
inductive WorkQueueError where
  | jobCancelled
  | jobNotFound
  | jobAlreadyClaimed
  | workerMismatch
  | invalidJobStatus (msg : String)
  | invalidPartition (partition : String)
  | redis
  | pool
  | serialization
  | other (msg : String)
deriving DecidableEq

/-- What the queue stores under a string key. -/
inductive Val where
  | desc (d : JobDesc)
  | result (r : JobResult)
  | status (n : ℕ)
deriving DecidableEq

/-- Rust `Claim::new`. -/
def Claim.new (workerId : String) (jobId : JobId) (priority : Priority) (now : ℤ) : Claim where
  jobId := jobId
  priority := priority
  workerId := workerId
  time := now
  partition := none

/-- Rust `Claim::in_partition`. -/
def Claim.inPartition (c : Claim) (partition : Option String) : Claim :=
  { c with partition := partition }

/-- Rust `Claim::refresh`. -/
def Claim.refresh (c : Claim) (workerId : String) (now : ℤ) : Except WorkQueueError Claim :=
  if workerId ≠ c.workerId then
    .error (.other s!"Worker {workerId} tried to refresh a claim that isn't theirs (owner is {c.workerId})")
  else .ok { c with time := now }

/-- Whether a claim is taken for expired at time `now` (the test of Rust `reclaim_checker_inner`). -/
def Claim.expired (c : Claim) (timeout : ℕ) (now : ℤ) : Bool :=
  timeout < (now - c.time).natAbs

/-- Rust `MAX_PARTITION_LEN`. -/
def maxPartitionLen : ℕ := 64

/-- The characters a partition's name is made of. -/
def partitionChar (c : Char) : Bool :=
  ('0' ≤ c ∧ c ≤ '9') ∨ ('a' ≤ c ∧ c ≤ 'z') ∨ ('A' ≤ c ∧ c ≤ 'Z') ∨ c ∈ ['.', '_', '-', '+']

/-- Rust `validate_partition`. -/
def validatePartition (partition : String) : Except WorkQueueError Unit :=
  if partition ≠ "" ∧ partition.utf8ByteSize ≤ maxPartitionLen ∧ partition.toList.all partitionChar then
    .ok ()
  else .error (.invalidPartition partition)

example : validatePartition "0.7.0-rc1" = .ok () := by decide
example : validatePartition "0.6.8:queue" = .error (.invalidPartition "0.6.8:queue") := by decide

end ArchipelagoXL.Wq
