import ArchipelagoXL.Wq.Keys

/-!
# The operations of a work queue, command by command

Model of the operations of `WorkQueue` (`wq/src/lib.rs`). Each operation is cut at its Redis commands:
a program point is the command the operation issues next, with the local variables that are still
needed, and `code` gives for every point the command and what follows each reply. The commands of a
`redis::pipe()` are separate points, since the pipelines are not atomic. A point with the command
`nop` is a step that talks to nobody: running the result callback, going to the next claim of the
checker's snapshot.

`Env` holds what the outside decides during a step: the clock, whether a timer ran out, what the
callback answers, the id `JobId::new` gives.
-/

namespace ArchipelagoXL.Wq

open Redis (Instr)

/-- What the environment decides during one step. -/
structure Env where
  /-- Rust `Utc::now()`. -/
  now : ℤ := 0
  /-- A second reading of the clock, where the source takes two. -/
  later : ℤ := 0
  /-- Rust `Instant::now() - start`. -/
  elapsed : ℕ := 0
  /-- Whether `tokio::time::timeout` ran out before a push came. -/
  timedOut : Bool := false
  /-- Which of the remaining claims the iteration over the snapshot gives next. -/
  pick : ℕ := 0
  /-- The answer of the result callback. -/
  callback : Except String Bool := .ok true
  /-- Rust `JobId::new()`. -/
  fresh : JobId := ⟨0⟩
deriving DecidableEq

/-- Where an operation goes after a reply: to another point, or back to its caller. -/
inductive Out (π α : Type) where
  | goto (p : π)
  | ret (r : Except WorkQueueError α)

/-- A command of the queue and what follows its reply. -/
abbrev Code (π α : Type) := Instr JobId Val Claim (Out π α)

/-! ## Cancelling (Rust `cancel_job`) -/

inductive CancelPc where
  | get (j : JobId)
  | zrem (j : JobId) (partition : Option String)
  | del (j : JobId)
  | hdel (j : JobId)
deriving DecidableEq

def CancelPc.code (q : WorkQueue) : CancelPc → Code CancelPc Unit
  | .get j => ⟨.get (q.getJobKey j), fun v => .goto (.zrem j (readPartition v))⟩
  | .zrem j p => ⟨.zrem (q.pending.key p) j, fun _ => .goto (.del j)⟩
  | .del j => ⟨.del (q.getJobKey j), fun _ => .goto (.hdel j)⟩
  | .hdel j => ⟨.hdel q.claimsKey j, fun _ => .ret (.ok ())⟩

/-! ## Enqueuing (Rust `enqueue_job_in`) -/

/-- The new job; its partition is the normalized one. -/
structure Enqueued where
  jobId : JobId
  desc : JobDesc
  priority : Priority
deriving DecidableEq

inductive EnqueuePc where
  | set (a : Enqueued)
  | sadd (a : Enqueued) (partition : String)
  | zadd (a : Enqueued)
  | publish (a : Enqueued)
deriving DecidableEq

def EnqueuePc.code (q : WorkQueue) : EnqueuePc → Code EnqueuePc JobId
  | .set a =>
    ⟨.set (q.getJobKey a.jobId) (.desc a.desc), fun _ =>
      match a.desc.partition with
      | some p => .goto (.sadd a p)
      | none => .goto (.zadd a)⟩
  | .sadd a p => ⟨.sadd q.pending.partitionsKey p, fun _ => .goto (.zadd a)⟩
  | .zadd a =>
    ⟨.zadd (q.pending.key a.desc.partition) a.jobId a.priority.score, fun _ => .goto (.publish a)⟩
  | .publish a => ⟨.publish (q.pending.key a.desc.partition) "0", fun _ => .ret (.ok a.jobId)⟩

/-! ## Claiming (Rust `claim_job_in`) -/

/-- A claimer: its normalized partition and its worker. -/
structure Claimer where
  partition : Option String
  workerId : String
deriving DecidableEq

inductive ClaimPc where
  | subscribe (a : Claimer)
  | zpopmin (a : Claimer) (remaining : ℕ)
  | get (a : Claimer) (remaining : ℕ) (j : JobId) (priority : Priority)
  | cancel (a : Claimer) (remaining : ℕ) (c : CancelPc)
  | recv (a : Claimer) (remaining : ℕ)
  | hset (a : Claimer) (j : JobId) (priority : Priority) (params : String)
deriving DecidableEq

def ClaimPc.code (q : WorkQueue) (e : Env) : ClaimPc → Code ClaimPc (Option Job)
  | .subscribe a =>
    ⟨.subscribe (q.pending.key a.partition), fun _ => .goto (.zpopmin a q.claimTimeout)⟩
  | .zpopmin a remaining =>
    ⟨.zpopmin (q.pending.key a.partition), fun popped =>
      match popped with
      | none => .goto (.recv a remaining)
      | some (j, score) =>
        match Priority.ofScore score with
        | some priority => .goto (.get a remaining j priority)
        | none => .ret (.error .redis)⟩
  | .get a remaining j priority =>
    ⟨.get (q.getJobKey j), fun v =>
      match q.readDesc v with
      | .error err => .ret (.error err)
      | .ok d =>
        if d.deadline < e.now then .goto (.cancel a remaining (.get j))
        else .goto (.hset a j priority d.params)⟩
  | .cancel a remaining c =>
    (c.code q).map fun out =>
      match out with
      | .goto c' => .goto (.cancel a remaining c')
      | .ret (.ok ()) => .goto (.zpopmin a remaining)
      | .ret (.error err) => .ret (.error err)
  | .recv a remaining =>
    ⟨.recv, fun push =>
      match push with
      | none => if e.timedOut then .ret (.ok none) else .goto (.recv a remaining)
      | some _ =>
        if remaining < e.elapsed then .ret (.ok none)
        else .goto (.zpopmin a (remaining - e.elapsed))⟩
  | .hset a j priority params =>
    ⟨.hset q.claimsKey j ((Claim.new a.workerId j priority e.now).inPartition a.partition), fun _ =>
      .ret (.ok (some ⟨j, params⟩))⟩

/-! ## Refreshing a claim (Rust `reclaim_job`) -/

inductive ReclaimPc where
  | hget (j : JobId) (workerId : String)
  | hset (j : JobId) (claim : Claim)
deriving DecidableEq

def ReclaimPc.code (q : WorkQueue) (e : Env) : ReclaimPc → Code ReclaimPc Unit
  | .hget j workerId =>
    ⟨.hget q.claimsKey j, fun claim =>
      match claim with
      | none => .ret (.error .jobCancelled)
      | some c =>
        match c.refresh workerId e.now with
        | .error err => .ret (.error err)
        | .ok c' => .goto (.hset j c')⟩
  | .hset j c => ⟨.hset q.claimsKey j c, fun _ => .ret (.ok ())⟩

/-! ## Resolving (Rust `resolve_job`) -/

/-- The arguments of `resolve_job`. -/
structure Resolve where
  workerId : String
  jobId : JobId
  status : JobStatus
  result : Option String
deriving DecidableEq

inductive ResolvePc where
  | hget (a : Resolve)
  | get (a : Resolve)
  | hdel (a : Resolve) (d : JobDesc)
  | callback (a : Resolve) (d : JobDesc)
  | set (a : Resolve) (final : JobStatus) (cleanup : Bool)
  | setEx (a : Resolve) (final : JobStatus) (cleanup : Bool)
  | incr (a : Resolve) (final : JobStatus) (cleanup : Bool)
  | publish (a : Resolve) (final : JobStatus) (cleanup : Bool)
  | delJob (a : Resolve)
  | delResult (a : Resolve)
deriving DecidableEq

def ResolvePc.code (q : WorkQueue) (e : Env) : ResolvePc → Code ResolvePc Unit
  | .hget a =>
    ⟨.hget q.claimsKey a.jobId, fun claim =>
      match claim with
      | none => .ret (.error .jobCancelled)
      | some c => if c.workerId ≠ a.workerId then .ret (.error .workerMismatch) else .goto (.get a)⟩
  | .get a =>
    ⟨.get (q.getJobKey a.jobId), fun v =>
      match q.readDesc v with
      | .error err => .ret (.error err)
      | .ok d => .goto (.hdel a d)⟩
  | .hdel a d =>
    ⟨.hdel q.claimsKey a.jobId, fun _ =>
      if q.hasCallback then .goto (.callback a d) else .goto (.set a a.status false)⟩
  | .callback a _ =>
    ⟨.nop, fun _ =>
      match e.callback with
      | .ok processed => .goto (.set a a.status processed)
      | .error _ => .goto (.set a .internalError true)⟩
  | .set a final cleanup =>
    ⟨.set (q.getResultKey a.jobId) (.result ⟨final, a.result⟩), fun _ =>
      .goto (.setEx a final cleanup)⟩
  | .setEx a final cleanup =>
    ⟨.setEx (q.getResolvedKey a.jobId) (.status final.code), fun _ => .goto (.incr a final cleanup)⟩
  | .incr a final cleanup =>
    ⟨.incr (q.getStatsKey final.asStatName), fun _ => .goto (.publish a final cleanup)⟩
  | .publish a final cleanup =>
    ⟨.publish (q.getResultKey a.jobId) final.text, fun _ =>
      if cleanup then .goto (.delJob a) else .ret (.ok ())⟩
  | .delJob a => ⟨.del (q.getJobKey a.jobId), fun _ => .goto (.delResult a)⟩
  | .delResult a => ⟨.del (q.getResultKey a.jobId), fun _ => .ret (.ok ())⟩

/-! ## One pass of the reclaim checker (Rust `reclaim_checker_inner`, one turn of its loop) -/

inductive CheckerPc where
  | hgetall
  | scan (now : ℤ) (rest : List Claim)
  | zadd (now : ℤ) (c : Claim) (rest : List Claim)
  | del (now : ℤ) (c : Claim) (rest : List Claim)
  | hdel (now : ℤ) (c : Claim) (rest : List Claim)
  | publish (now : ℤ) (c : Claim) (rest : List Claim)
deriving DecidableEq

def CheckerPc.code (q : WorkQueue) (e : Env) : CheckerPc → Code CheckerPc Unit
  | .hgetall =>
    ⟨.hgetall q.claimsKey, fun claims =>
      if claims.isEmpty then .ret (.ok ()) else .goto (.scan e.now claims)⟩
  | .scan now rest =>
    -- the snapshot is a `HashMap`, so its claims come in any order
    ⟨.nop, fun _ =>
      match rest[e.pick % rest.length]? with
      | none => .ret (.ok ())
      | some c =>
        let rest' := rest.eraseIdx (e.pick % rest.length)
        if c.expired q.reclaimTimeout now then .goto (.zadd now c rest') else .goto (.scan now rest')⟩
  | .zadd now c rest =>
    ⟨.zadd (q.pending.key c.partition) c.jobId c.priority.score, fun _ => .goto (.del now c rest)⟩
  | .del now c rest =>
    ⟨.del (q.claimsKey ++ ":" ++ c.jobId.text), fun _ => .goto (.hdel now c rest)⟩
  | .hdel now c rest => ⟨.hdel q.claimsKey c.jobId, fun _ => .goto (.publish now c rest)⟩
  | .publish now c rest =>
    ⟨.publish (q.pending.key c.partition) "0", fun _ => .goto (.scan now rest)⟩

/-- After a Redis error the pass ends, or goes on with the next claim. -/
def CheckerPc.fail : CheckerPc → Out CheckerPc Unit
  | .hgetall => .ret (.ok ())
  | .scan now rest => .goto (.scan now rest)
  | .zadd now _ rest | .del now _ rest | .hdel now _ rest | .publish now _ rest =>
    .goto (.scan now rest)

/-! ## Statuses (Rust `get_job_status`) -/

inductive StatusPc where
  | existResult (j : JobId)
  | hexists (j : JobId) (isResolved : Bool)
  | existJob (j : JobId) (isResolved isClaimed : Bool)
  | getResult (j : JobId) (isClaimed isQueued : Bool)
deriving DecidableEq

/-- The answer for a job without a result. -/
def unresolvedStatus (isClaimed isQueued : Bool) : Option JobStatus :=
  if isClaimed then some .running else if isQueued then some .pending else none

def StatusPc.code (q : WorkQueue) : StatusPc → Code StatusPc (Option JobStatus)
  | .existResult j => ⟨.exist (q.getResultKey j), fun b => .goto (.hexists j b)⟩
  | .hexists j isResolved => ⟨.hexists q.claimsKey j, fun b => .goto (.existJob j isResolved b)⟩
  | .existJob j isResolved isClaimed =>
    ⟨.exist (q.getJobKey j), fun isQueued =>
      if isResolved then .goto (.getResult j isClaimed isQueued)
      else .ret (.ok (unresolvedStatus isClaimed isQueued))⟩
  | .getResult j isClaimed isQueued =>
    ⟨.get (q.getResultKey j), fun v =>
      match q.readResult v with
      | .error err => .ret (.error err)
      | .ok (some r) => .ret (.ok (some r.status))
      | .ok none => .ret (.ok (unresolvedStatus isClaimed isQueued))⟩

/-! ## Waiting for a job (Rust `wait_for_job`) -/

inductive WaitPc where
  | status (j : JobId) (timeout : Option ℕ) (s : StatusPc)
  | resolved (j : JobId)
  | subscribe (j : JobId) (timeout : Option ℕ)
  | getResult (j : JobId) (timeout : Option ℕ)
  | lateResolved (j : JobId) (timeout : Option ℕ)
  | recv (j : JobId) (remaining : ℕ)
  | unsubscribe (j : JobId) (r : Except WorkQueueError (Option JobStatus))
deriving DecidableEq

/-- The default timeout of `wait_for_job`, one day. -/
def defaultWait : ℕ := 3600 * 24 * 1000000000

/-- What a published payload says of the job's end. -/
def readPayload (payload : String) : Except WorkQueueError (Option JobStatus) :=
  match parseU8 payload with
  | none => .ok (some .internalError)
  | some n =>
    match JobStatus.tryFrom n with
    | some s => .ok (some s)
    | none => .error (.other s!"Invalid job status: {n}")

def WaitPc.code (q : WorkQueue) (e : Env) : WaitPc → Code WaitPc (Option JobStatus)
  | .status j timeout s =>
    (s.code q).map fun out =>
      match out with
      | .goto s' => .goto (.status j timeout s')
      | .ret (.ok none) => .goto (.resolved j)
      | .ret (.ok (some _)) => .goto (.subscribe j timeout)
      | .ret (.error _) => .ret (.error (.other "Redis error"))
  | .resolved j =>
    ⟨.get (q.getResolvedKey j), fun v =>
      match WorkQueue.readStatus v with
      | .error err => .ret (.error err)
      | .ok (some s) => .ret (.ok (some s))
      | .ok none => .ret (.error .jobNotFound)⟩
  | .subscribe j timeout =>
    ⟨.subscribe (q.getResultKey j), fun _ => .goto (.getResult j timeout)⟩
  | .getResult j timeout =>
    ⟨.get (q.getResultKey j), fun v =>
      match q.readResult v with
      | .error err => .ret (.error err)
      | .ok (some r) => .goto (.unsubscribe j (.ok (some r.status)))
      | .ok none => .goto (.lateResolved j timeout)⟩
  | .lateResolved j timeout =>
    ⟨.get (q.getResolvedKey j), fun v =>
      match WorkQueue.readStatus v with
      | .error err => .ret (.error err)
      | .ok (some s) => .goto (.unsubscribe j (.ok (some s)))
      | .ok none => .goto (.recv j (timeout.getD defaultWait))⟩
  | .recv j remaining =>
    ⟨.recv, fun push =>
      match push with
      | none => if e.timedOut then .ret (.ok none) else .goto (.recv j remaining)
      | some p =>
        if remaining < e.elapsed then .ret (.ok none)
        else
          match p with
          | .subscribe _ => .goto (.recv j (remaining - e.elapsed))
          | .message channel payload =>
            if channel ≠ q.getResultKey j then .goto (.recv j (remaining - e.elapsed))
            else .goto (.unsubscribe j (readPayload payload))⟩
  | .unsubscribe j r => ⟨.unsubscribe (q.getResultKey j), fun _ => .ret r⟩

/-! ## Deleting results (Rust `delete_job_result`, `process_orphaned_job_results`) -/

inductive DeletePc where
  | delResult (j : JobId)
  | delJob (j : JobId)
deriving DecidableEq

def DeletePc.code (q : WorkQueue) : DeletePc → Code DeletePc Unit
  | .delResult j => ⟨.del (q.getResultKey j), fun _ => .goto (.delJob j)⟩
  | .delJob j => ⟨.del (q.getJobKey j), fun _ => .ret (.ok ())⟩

inductive OrphansPc where
  | keys
  | next (rest : List String)
  | delete (d : DeletePc) (rest : List String)
  | getJob (j : JobId) (key : String) (rest : List String)
  | getResult (d : JobDesc) (j : JobId) (key : String) (rest : List String)
  | callback (d : JobDesc) (r : JobResult) (j : JobId) (key : String) (rest : List String)
  | delJob (j : JobId) (key : String) (rest : List String)
  | delResult (key : String) (rest : List String)
deriving DecidableEq

/-- What follows the last colon of a key (Rust `split(':').next_back()`). -/
def lastSegment (key : String) : String :=
  String.ofList (key.toList.reverse.takeWhile (· ≠ ':')).reverse

/-- The task spawned for a result is run to its end before the next result is looked at. The pattern
of `KEYS` is the queue's prefix, whose name holds no character that is special in it. -/
def OrphansPc.code (q : WorkQueue) (e : Env) : OrphansPc → Code OrphansPc Unit
  | .keys => ⟨.keys (q.resultsKey ++ ":"), fun ks => .goto (.next ks)⟩
  | .next [] => ⟨.nop, fun _ => .ret (.ok ())⟩
  | .next (key :: rest) =>
    ⟨.nop, fun _ =>
      match Uuid.parseStr (lastSegment key) with
      | none => .goto (.next rest)
      | some j =>
        if q.hasCallback then .goto (.getJob j key rest)
        else .goto (.delete (.delResult j) rest)⟩
  | .delete d rest =>
    (d.code q).map fun out =>
      match out with
      | .goto d' => .goto (.delete d' rest)
      | .ret (.ok ()) => .goto (.next rest)
      | .ret (.error err) => .ret (.error err)
  | .getJob j key rest =>
    ⟨.get (q.getJobKey j), fun v =>
      match v with
      | none => .goto (.delete (.delResult j) rest)
      | some v =>
        match q.readDesc (some v) with
        | .error err => .ret (.error err)
        | .ok d => .goto (.getResult d j key rest)⟩
  | .getResult d j key rest =>
    ⟨.get key, fun v =>
      match q.readResult v with
      | .ok (some r) => .goto (.callback d r j key rest)
      | .ok none => .ret (.error .redis)
      | .error err => .ret (.error err)⟩
  | .callback _ _ j key rest =>
    ⟨.nop, fun _ =>
      match e.callback with
      | .ok true => .goto (.delJob j key rest)
      | .ok false | .error _ => .goto (.next rest)⟩
  | .delJob j key rest => ⟨.del (q.getJobKey j), fun _ => .goto (.delResult key rest)⟩
  | .delResult key rest => ⟨.del key, fun _ => .goto (.next rest)⟩

/-! ## Counting (Rust `get_stats`) -/

/-- Rust `QueueStats`. -/
structure QueueStats where
  jobsFailed : ℕ
  jobsSucceeded : ℕ
  jobsErrored : ℕ
  jobsScheduled : ℕ
  jobsClaimed : ℕ
deriving DecidableEq

inductive StatsPc where
  | failed
  | succeeded (failed : ℕ)
  | errored (failed succeeded : ℕ)
  | partitions (failed succeeded errored : ℕ)
  | scheduled (failed succeeded errored : ℕ) (partitions : List String)
  | partition (failed succeeded errored scheduled : ℕ) (p : String) (rest : List String)
  | claimed (failed succeeded errored scheduled : ℕ)
deriving DecidableEq

/-- The next partition to count, or the claims when there is none left. -/
def StatsPc.following (failed succeeded errored scheduled : ℕ) : List String → StatsPc
  | [] => .claimed failed succeeded errored scheduled
  | p :: rest => .partition failed succeeded errored scheduled p rest

def StatsPc.code (q : WorkQueue) : StatsPc → Code StatsPc QueueStats
  | .failed => ⟨.count (q.getStatsKey "failed"), fun n => .goto (.succeeded n)⟩
  | .succeeded f => ⟨.count (q.getStatsKey "succeeded"), fun n => .goto (.errored f n)⟩
  | .errored f s => ⟨.count (q.getStatsKey "errored"), fun n => .goto (.partitions f s n)⟩
  | .partitions f s er =>
    ⟨.smembers q.pending.partitionsKey, fun ps => .goto (.scheduled f s er ps)⟩
  | .scheduled f s er ps =>
    ⟨.zcount q.queueKey Priority.high.score Priority.low.score, fun n =>
      .goto (StatsPc.following f s er n ps)⟩
  | .partition f s er n p rest =>
    ⟨.zcount (q.pending.key (some p)) Priority.high.score Priority.low.score, fun m =>
      .goto (StatsPc.following f s er (n + m) rest)⟩
  | .claimed f s er n => ⟨.hlen q.claimsKey, fun m => .ret (.ok ⟨f, s, er, n, m⟩)⟩

end ArchipelagoXL.Wq
