import ArchipelagoXL.Wq.Types

/-!
# Queues and their keys

Model of `WorkQueue`, `PendingKeys` and `WorkQueueBuilder` (`wq/src/lib.rs`, `wq/src/builder.rs`).
Every key of a queue starts with `wq:` and the queue's name. `Built q name` says that `q` has the keys
`build` gives a queue of that name, and the lemmas after it say which keys can coincide: inside one
queue none of different kinds, and between queues whose names hold no colon none at all unless the
names are equal.
-/

namespace ArchipelagoXL.Wq

/-- Rust `PendingKeys`. -/
structure PendingKeys where
  defaultKey : String
  partitionsKey : String
  partitionPrefix : String
  defaultPartition : Option String

/-- Rust `PendingKeys::normalize`. -/
def PendingKeys.normalize (k : PendingKeys) : Option String → Except WorkQueueError (Option String)
  | none => .ok none
  | some partition => do
    validatePartition partition
    if k.defaultPartition = some partition then return none
    return some partition

/-- The sorted set of a normalized partition (Rust `PendingKeys::key`). -/
def PendingKeys.key (k : PendingKeys) : Option String → String
  | none => k.defaultKey
  | some partition => k.partitionPrefix ++ ":" ++ partition ++ ":queue"

/-- Rust `WorkQueue`. The callback's outcome is decided by the environment, so only whether there is
one is kept; `parsesParams` and `parsesResult` say which JSON texts `serde` reads as the queue's
parameter and result types. -/
structure WorkQueue where
  queueKey : String
  claimsKey : String
  resultsKey : String
  resolvedKey : String
  statsKey : String
  pending : PendingKeys
  reclaimTimeout : ℕ
  claimTimeout : ℕ
  hasCallback : Bool
  parsesParams : String → Bool
  parsesResult : String → Bool

namespace WorkQueue

/-- Rust `get_job_key`. -/
def getJobKey (q : WorkQueue) (j : JobId) : String := q.queueKey ++ ":" ++ j.text

/-- Rust `get_result_key`. -/
def getResultKey (q : WorkQueue) (j : JobId) : String := q.resultsKey ++ ":" ++ j.text

/-- Rust `get_resolved_key`. -/
def getResolvedKey (q : WorkQueue) (j : JobId) : String := q.resolvedKey ++ ":" ++ j.text

/-- Rust `get_stats_key`. -/
def getStatsKey (q : WorkQueue) (stat : String) : String := q.statsKey ++ ":" ++ stat

/-- A description as `GET` and `serde_json::from_str::<JobDesc<P>>` give it. -/
def readDesc (q : WorkQueue) : Option Val → Except WorkQueueError JobDesc
  | none => .error .redis
  | some (.desc d) => if q.parsesParams d.params then .ok d else .error .serialization
  | some _ => .error .serialization

/-- A result as `GET::<Option<JobResult<R>>>` gives it. -/
def readResult (q : WorkQueue) : Option Val → Except WorkQueueError (Option JobResult)
  | none => .ok none
  | some (.result r) => if r.result.all q.parsesResult then .ok (some r) else .error .redis
  | some _ => .error .redis

/-- The status of a resolved job as `get_resolved_status` gives it. -/
def readStatus : Option Val → Except WorkQueueError (Option JobStatus)
  | none => .ok none
  | some (.status n) =>
    match JobStatus.tryFrom n with
    | some s => .ok (some s)
    | none => .error (.other s!"Invalid job status: {n}")
  | some _ => .error .redis

end WorkQueue

/-- The partition a stored description names, for a reader that knows nothing of its parameters
(Rust `JobPartition`). -/
def readPartition : Option Val → Option String
  | some (.desc d) => d.partition
  | _ => none

/-- Rust `WorkQueueBuilder`. -/
structure WorkQueueBuilder where
  queueName : String
  defaultPartition : Option String := none
  reclaimTimeout : ℕ := 30000000000
  claimTimeout : ℕ := 30000000000
  hasCallback : Bool := false
  parsesParams : String → Bool
  parsesResult : String → Bool

/-- The queue `build` makes. -/
def WorkQueueBuilder.queue (b : WorkQueueBuilder) : WorkQueue where
  claimsKey := "wq:" ++ b.queueName ++ ":claims"
  resultsKey := "wq:" ++ b.queueName ++ ":results"
  resolvedKey := "wq:" ++ b.queueName ++ ":resolved"
  statsKey := "wq:" ++ b.queueName ++ ":stats"
  queueKey := "wq:" ++ b.queueName ++ ":queue"
  pending :=
    { defaultKey := "wq:" ++ b.queueName ++ ":queue"
      partitionsKey := "wq:" ++ b.queueName ++ ":partitions"
      partitionPrefix := "wq:" ++ b.queueName ++ ":partition"
      defaultPartition := b.defaultPartition }
  reclaimTimeout := b.reclaimTimeout
  claimTimeout := b.claimTimeout
  hasCallback := b.hasCallback
  parsesParams := b.parsesParams
  parsesResult := b.parsesResult

/-- Rust `WorkQueueBuilder::build`, on a server that answers. -/
def WorkQueueBuilder.build (b : WorkQueueBuilder) : Except WorkQueueError WorkQueue := do
  if let some defaultPartition := b.defaultPartition then
    validatePartition defaultPartition
  return b.queue

/-- A queue with the keys of the name `name`. -/
structure Built (q : WorkQueue) (name : String) : Prop where
  claims : q.claimsKey = "wq:" ++ name ++ ":claims"
  results : q.resultsKey = "wq:" ++ name ++ ":results"
  resolved : q.resolvedKey = "wq:" ++ name ++ ":resolved"
  stats : q.statsKey = "wq:" ++ name ++ ":stats"
  queue : q.queueKey = "wq:" ++ name ++ ":queue"
  default : q.pending.defaultKey = "wq:" ++ name ++ ":queue"
  pre : q.pending.partitionPrefix = "wq:" ++ name ++ ":partition"

lemma WorkQueueBuilder.queue_built (b : WorkQueueBuilder) : Built b.queue b.queueName :=
  ⟨rfl, rfl, rfl, rfl, rfl, rfl, rfl⟩

/-- `build` gives the queue or refuses the default partition's name. -/
lemma WorkQueueBuilder.build_ok {b : WorkQueueBuilder} {q} (e : b.build = .ok q) : q = b.queue := by
  unfold WorkQueueBuilder.build at e
  cases hp : b.defaultPartition with
  | none =>
    rw [hp] at e
    cases e
    rfl
  | some p =>
    rw [hp] at e
    cases hv : validatePartition p with
    | error err =>
      simp [hv, bind, Except.bind] at e
    | ok u =>
      simp only [hv, bind, Except.bind, pure, Except.pure, Except.ok.injEq] at e
      exact e.symm

lemma WorkQueueBuilder.build_built {b : WorkQueueBuilder} {q} (e : b.build = .ok q) :
    Built q b.queueName := by
  rw [build_ok e]
  exact b.queue_built

namespace Built

variable {q q' : WorkQueue} {name name' : String}

lemma key_none (h : Built q name) : q.pending.key none = "wq:" ++ name ++ ":queue" := h.default

lemma key_some (h : Built q name) (p : String) :
    q.pending.key (some p) = "wq:" ++ name ++ ":partition:" ++ p ++ ":queue" := by
  simp only [PendingKeys.key, h.pre, String.append_assoc, String.append_right_inj]
  simp [← String.append_assoc]

lemma jobKey (h : Built q name) (j : JobId) : q.getJobKey j = "wq:" ++ name ++ ":queue:" ++ j.text := by
  simp only [WorkQueue.getJobKey, h.queue, String.append_assoc, String.append_right_inj]
  simp [← String.append_assoc]

lemma resultKey (h : Built q name) (j : JobId) :
    q.getResultKey j = "wq:" ++ name ++ ":results:" ++ j.text := by
  simp only [WorkQueue.getResultKey, h.results, String.append_assoc, String.append_right_inj]
  simp [← String.append_assoc]

lemma resolvedKey (h : Built q name) (j : JobId) :
    q.getResolvedKey j = "wq:" ++ name ++ ":resolved:" ++ j.text := by
  simp only [WorkQueue.getResolvedKey, h.resolved, String.append_assoc, String.append_right_inj]
  simp [← String.append_assoc]

/-- Different normalized partitions have different pending sets. -/
lemma key_inj (h : Built q name) {p p' : Option String} (e : q.pending.key p = q.pending.key p') :
    p = p' := by
  cases p with
  | none =>
    cases p' with
    | none => rfl
    | some p' =>
      rw [h.key_none, h.key_some] at e
      simp only [String.append_assoc, String.append_right_inj] at e
      simp [← String.toList_inj] at e
  | some p =>
    cases p' with
    | none =>
      rw [h.key_none, h.key_some] at e
      simp only [String.append_assoc, String.append_right_inj] at e
      simp [← String.toList_inj] at e
    | some p' =>
      rw [h.key_some, h.key_some] at e
      simpa [String.append_assoc] using e

/-- No pending set is stored where a job's description is. -/
lemma key_ne_jobKey (h : Built q name) (p : Option String) (j : JobId) :
    q.pending.key p ≠ q.getJobKey j := by
  intro e
  cases p with
  | none =>
    rw [h.key_none, h.jobKey] at e
    simp only [String.append_assoc, String.append_right_inj] at e
    simp [← String.toList_inj] at e
  | some p =>
    rw [h.key_some, h.jobKey] at e
    simp only [String.append_assoc, String.append_right_inj] at e
    simp [← String.toList_inj] at e

lemma jobKey_inj (h : Built q name) {j j' : JobId} (e : q.getJobKey j = q.getJobKey j') : j = j' := by
  rw [h.jobKey, h.jobKey] at e
  exact Uuid.text_injective ((String.append_right_inj _).1 e)

lemma resultKey_inj (h : Built q name) {j j' : JobId} (e : q.getResultKey j = q.getResultKey j') :
    j = j' := by
  rw [h.resultKey, h.resultKey] at e
  exact Uuid.text_injective ((String.append_right_inj _).1 e)

lemma jobKey_ne_resultKey (h : Built q name) (j j' : JobId) : q.getJobKey j ≠ q.getResultKey j' := by
  intro e
  rw [h.jobKey, h.resultKey] at e
  simp only [String.append_assoc, String.append_right_inj] at e
  simp [← String.toList_inj] at e

lemma jobKey_ne_resolvedKey (h : Built q name) (j j' : JobId) :
    q.getJobKey j ≠ q.getResolvedKey j' := by
  intro e
  rw [h.jobKey, h.resolvedKey] at e
  simp only [String.append_assoc, String.append_right_inj] at e
  simp [← String.toList_inj] at e

lemma resultKey_ne_resolvedKey (h : Built q name) (j j' : JobId) :
    q.getResultKey j ≠ q.getResolvedKey j' := by
  intro e
  rw [h.resultKey, h.resolvedKey] at e
  simp only [String.append_assoc, String.append_right_inj] at e
  simp [← String.toList_inj] at e

/-- The key the checker deletes for an expired claim is no job's description. -/
lemma jobKey_ne_claimKey (h : Built q name) (j j' : JobId) :
    q.getJobKey j ≠ q.claimsKey ++ ":" ++ j'.text := by
  intro e
  rw [h.jobKey, h.claims] at e
  simp only [String.append_assoc, String.append_right_inj] at e
  simp [← String.toList_inj] at e

/-- The key the checker deletes for an expired claim is no job's result. -/
lemma resultKey_ne_claimKey (h : Built q name) (j j' : JobId) :
    q.getResultKey j ≠ q.claimsKey ++ ":" ++ j'.text := by
  intro e
  rw [h.resultKey, h.claims] at e
  simp only [String.append_assoc, String.append_right_inj] at e
  simp [← String.toList_inj] at e

/-- `KEYS` for the results does not find a description. -/
lemma jobKey_not_results (h : Built q name) (j : JobId) :
    ¬ (q.resultsKey ++ ":").toList <+: (q.getJobKey j).toList := by
  rw [h.results, h.jobKey]
  simp [String.toList_append, List.append_assoc]

/-- `KEYS` for the results does not find a resolved status. -/
lemma resolvedKey_not_results (h : Built q name) (j : JobId) :
    ¬ (q.resultsKey ++ ":").toList <+: (q.getResolvedKey j).toList := by
  rw [h.results, h.resolvedKey]
  simp [String.toList_append, List.append_assoc]

/-- Queues of different colon-free names share no pending set. -/
lemma name_of_key (h : Built q name) (h' : Built q' name') (nc : ':' ∉ name.toList)
    (nc' : ':' ∉ name'.toList) {p p' : Option String} (e : q.pending.key p = q'.pending.key p') :
    name = name' := by
  have upTo : ∀ {l r : List Char}, ':' ∉ l → (l ++ ':' :: r).takeWhile (· ≠ ':') = l := by
    intro l r nc
    have all : ∀ c ∈ l, (decide (c ≠ ':')) = true := by
      intro c hc
      have ne : c ≠ ':' := fun e => nc (e ▸ hc)
      simpa using ne
    rw [List.takeWhile_append_of_pos all]
    simp
  have split : ∀ {r r' : List Char}, name.toList ++ ':' :: r = name'.toList ++ ':' :: r' →
      name = name' := by
    intro r r' e
    have t := congrArg (List.takeWhile (· ≠ ':')) e
    rw [upTo nc, upTo nc'] at t
    exact String.toList_injective t
  cases p with
  | none =>
    cases p' with
    | none =>
      rw [h.key_none, h'.key_none] at e
      simpa [String.append_assoc] using e
    | some p' =>
      rw [h.key_none, h'.key_some] at e
      simp only [← String.toList_inj, String.toList_append, List.append_assoc,
        List.append_cancel_left_eq] at e
      exact split e
  | some p =>
    cases p' with
    | none =>
      rw [h.key_some, h'.key_none] at e
      simp only [← String.toList_inj, String.toList_append, List.append_assoc,
        List.append_cancel_left_eq] at e
      exact split e
    | some p' =>
      rw [h.key_some, h'.key_some] at e
      simp only [← String.toList_inj, String.toList_append, List.append_assoc,
        List.append_cancel_left_eq] at e
      exact split e

lemma name_of_claims (h : Built q name) (h' : Built q' name') (e : q.claimsKey = q'.claimsKey) :
    name = name' := by
  rw [h.claims, h'.claims] at e
  simpa [String.append_assoc] using e

/-- Queues of one name use the same pending sets. -/
lemma key_eq (h : Built q name) (h' : Built q' name) (p : Option String) :
    q.pending.key p = q'.pending.key p := by
  cases p with
  | none => rw [h.key_none, h'.key_none]
  | some p => rw [h.key_some, h'.key_some]

lemma claims_eq (h : Built q name) (h' : Built q' name) : q.claimsKey = q'.claimsKey := by
  rw [h.claims, h'.claims]

end Built

/-- What `normalize` accepts. -/
lemma PendingKeys.normalize_ok {k : PendingKeys} {p r : Option String} (e : k.normalize p = .ok r) :
    (r = none ∧ (p = none ∨ p = k.defaultPartition)) ∨ (r = p ∧ p ≠ k.defaultPartition) := by
  cases p with
  | none =>
    cases e
    exact .inl ⟨rfl, .inl rfl⟩
  | some p =>
    simp only [normalize, bind, Except.bind] at e
    cases hv : validatePartition p with
    | error err => simp [hv] at e
    | ok u =>
      simp only [hv] at e
      split at e
      · rename_i hd
        cases e
        exact .inl ⟨rfl, .inr hd.symm⟩
      · rename_i hd
        cases e
        exact .inr ⟨rfl, fun eq => hd eq.symm⟩

end ArchipelagoXL.Wq
