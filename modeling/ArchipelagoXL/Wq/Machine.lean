import ArchipelagoXL.Lib.Interleave
import ArchipelagoXL.Wq.Ops

/-!
# Work queues as a machine of threads

Any number of threads, each running one operation of one of a family of queues over one Redis server
(`N` names the queues; for one queue it is `Unit`). A thread starts idle, an input `start` gives it a
call, `go` lets it issue its next command, `fail` makes that command answer with an error and `crash`
abandons the operation where it stands. `expire` is Redis dropping a key whose time to live ran out.

`JobId::new` never gives an id twice: a call to `enqueue_job_in` can only start with an id that was not
given out before. `World.issued` records the ids with the queue and the partition they were given out
for. The parameters of a new job and the result of a resolved one are texts that `serde` wrote, so it
can read them back.

The second half lists, once, which program points can issue each of the commands that change the
queue's data.
-/

namespace ArchipelagoXL.Wq

open Redis (Cmd Store)
open Interleave

/-- An operation in progress. -/
inductive Op where
  | enqueue (p : EnqueuePc)
  | claim (p : ClaimPc)
  | reclaim (p : ReclaimPc)
  | resolve (p : ResolvePc)
  | cancel (p : CancelPc)
  | checker (p : CheckerPc)
  | status (p : StatusPc)
  | wait (p : WaitPc)
  | delete (p : DeletePc)
  | orphans (p : OrphansPc)
  | stats (p : StatsPc)
deriving DecidableEq

/-- What an operation returned. -/
inductive Ret where
  | enqueued (r : Except WorkQueueError JobId)
  | claimed (r : Except WorkQueueError (Option Job))
  | reclaimed (r : Except WorkQueueError Unit)
  | resolved (r : Except WorkQueueError Unit)
  | cancelled (r : Except WorkQueueError Unit)
  | checked (r : Except WorkQueueError Unit)
  | status (r : Except WorkQueueError (Option JobStatus))
  | waited (r : Except WorkQueueError (Option JobStatus))
  | deleted (r : Except WorkQueueError Unit)
  | orphans (r : Except WorkQueueError Unit)
  | stats (r : Except WorkQueueError QueueStats)
  /-- It never returned: its process died or its future was dropped. -/
  | abandoned
deriving DecidableEq

/-- Where an operation goes after a step. -/
inductive Next where
  | goto (o : Op)
  | ret (r : Ret)

/-- The outcome of one operation's step as the machine sees it. -/
def Out.lift {π α : Type} (at_ : π → Op) (back : Except WorkQueueError α → Ret) : Out π α → Next
  | .goto p => .goto (at_ p)
  | .ret r => .ret (back r)

/-- The command of an operation's point and what follows its reply. -/
def Op.code (q : WorkQueue) (e : Env) : Op → Redis.Instr JobId Val Claim Next
  | .enqueue p => (p.code q).map (Out.lift .enqueue .enqueued)
  | .claim p => (p.code q e).map (Out.lift .claim .claimed)
  | .reclaim p => (p.code q e).map (Out.lift .reclaim .reclaimed)
  | .resolve p => (p.code q e).map (Out.lift .resolve .resolved)
  | .cancel p => (p.code q).map (Out.lift .cancel .cancelled)
  | .checker p => (p.code q e).map (Out.lift .checker .checked)
  | .status p => (p.code q).map (Out.lift .status .status)
  | .wait p => (p.code q e).map (Out.lift .wait .waited)
  | .delete p => (p.code q).map (Out.lift .delete .deleted)
  | .orphans p => (p.code q e).map (Out.lift .orphans .orphans)
  | .stats p => (p.code q).map (Out.lift .stats .stats)

/-- What an operation does when its command fails: it returns the error, except for the checker. -/
def Op.fail : Op → Next
  | .enqueue _ => .ret (.enqueued (.error .redis))
  | .claim _ => .ret (.claimed (.error .redis))
  | .reclaim _ => .ret (.reclaimed (.error .redis))
  | .resolve _ => .ret (.resolved (.error .redis))
  | .cancel _ => .ret (.cancelled (.error .redis))
  | .checker p => p.fail.lift .checker .checked
  | .status _ => .ret (.status (.error .redis))
  | .wait _ => .ret (.waited (.error .redis))
  | .delete _ => .ret (.deleted (.error .redis))
  | .orphans _ => .ret (.orphans (.error .redis))
  | .stats _ => .ret (.stats (.error .redis))

/-- The calls a client of a queue can make. -/
inductive Call where
  | enqueueJobIn (partition : Option String) (params : String) (priority : Priority) (deadlineIn : ℕ)
  | claimJobIn (partition : Option String) (workerId : String)
  | reclaimJob (j : JobId) (workerId : String)
  | resolveJob (workerId : String) (j : JobId) (status : JobStatus) (result : Option String)
  | cancelJob (j : JobId)
  | reclaimChecker
  | getJobStatus (j : JobId)
  | waitForJob (j : JobId) (timeout : Option ℕ)
  | deleteJobResult (j : JobId)
  | processOrphanedJobResults
  | getStats
deriving DecidableEq

/-- What a call does before its first command. -/
def Call.begin (q : WorkQueue) (e : Env) : Call → Next
  | .enqueueJobIn partition params priority deadlineIn =>
    match q.pending.normalize partition with
    | .error err => .ret (.enqueued (.error err))
    | .ok p => .goto (.enqueue (.set ⟨e.fresh, ⟨params, e.now, e.later + deadlineIn, p⟩, priority⟩))
  | .claimJobIn partition workerId =>
    match q.pending.normalize partition with
    | .error err => .ret (.claimed (.error err))
    | .ok p => .goto (.claim (.subscribe ⟨p, workerId⟩))
  | .reclaimJob j workerId => .goto (.reclaim (.hget j workerId))
  | .resolveJob workerId j status result =>
    if status.isResolved then .goto (.resolve (.hget ⟨workerId, j, status, result⟩))
    else
      .ret (.resolved (.error
        (.invalidJobStatus "Trying to report a status that doesn't resolve the job")))
  | .cancelJob j => .goto (.cancel (.get j))
  | .reclaimChecker => .goto (.checker .hgetall)
  | .getJobStatus j => .goto (.status (.existResult j))
  | .waitForJob j timeout => .goto (.wait (.status j timeout (.existResult j)))
  | .deleteJobResult j => .goto (.delete (.delResult j))
  | .processOrphanedJobResults => .goto (.orphans .keys)
  | .getStats => .goto (.stats .failed)

/-- The point a call begins at, if it gets to a command at all. -/
inductive Call.Begins (q : WorkQueue) (e : Env) : Call → Op → Prop where
  | enqueue {partition params priority deadlineIn p} : q.pending.normalize partition = .ok p →
    Begins q e (.enqueueJobIn partition params priority deadlineIn)
      (.enqueue (.set ⟨e.fresh, ⟨params, e.now, e.later + deadlineIn, p⟩, priority⟩))
  | claim {partition workerId p} : q.pending.normalize partition = .ok p →
    Begins q e (.claimJobIn partition workerId) (.claim (.subscribe ⟨p, workerId⟩))
  | reclaim {j workerId} : Begins q e (.reclaimJob j workerId) (.reclaim (.hget j workerId))
  | resolve {workerId j status result} : status.isResolved = true →
    Begins q e (.resolveJob workerId j status result) (.resolve (.hget ⟨workerId, j, status, result⟩))
  | cancel {j} : Begins q e (.cancelJob j) (.cancel (.get j))
  | checker : Begins q e .reclaimChecker (.checker .hgetall)
  | status {j} : Begins q e (.getJobStatus j) (.status (.existResult j))
  | wait {j timeout} : Begins q e (.waitForJob j timeout) (.wait (.status j timeout (.existResult j)))
  | delete {j} : Begins q e (.deleteJobResult j) (.delete (.delResult j))
  | orphans : Begins q e .processOrphanedJobResults (.orphans .keys)
  | stats : Begins q e .getStats (.stats .failed)

lemma Call.begins {q : WorkQueue} {e : Env} {c : Call} {o : Op} (h : c.begin q e = .goto o) :
    c.Begins q e o := by
  cases c with
  | enqueueJobIn partition params priority deadlineIn =>
    simp only [Call.begin] at h
    split at h <;> cases h
    exact .enqueue ‹_›
  | claimJobIn partition workerId =>
    simp only [Call.begin] at h
    split at h <;> cases h
    exact .claim ‹_›
  | resolveJob workerId j status result =>
    simp only [Call.begin] at h
    split at h <;> cases h
    exact .resolve ‹_›
  | _ =>
    cases h
    constructor

/-- Redis, and the ids given out so far. -/
structure World (N : Type) where
  store : Store JobId Val Claim
  issued : AList fun _ : JobId => N × Option String

/-- An empty server and no job yet. -/
def World.empty {N : Type} : World N := ⟨Store.empty, ∅⟩

inductive Pc (N : Type) where
  | idle
  | busy (q : N) (o : Op)
  | finished (q : N) (r : Ret)
deriving DecidableEq

/-- The thread is in the middle of an operation. -/
def Pc.isBusy {N : Type} : Pc N → Bool
  | .busy _ _ => true
  | _ => false

inductive Input (N : Type) where
  | start (q : N) (c : Call) (e : Env)
  | go (e : Env)
  | fail
  | crash
  | expire (key : String)
deriving DecidableEq

/-- What a call's arguments are known to be. -/
def Call.possible {N : Type} (q : WorkQueue) (w : World N) (e : Env) : Call → Bool
  | .enqueueJobIn _ params _ _ => decide (e.fresh ∉ w.issued) && q.parsesParams params
  | .resolveJob _ _ _ result => result.all q.parsesResult
  | _ => true

/-- A new job's id counts as given out from the moment its operation begins. -/
def World.issue {N : Type} (w : World N) (q : N) : Next → World N
  | .goto (.enqueue (.set a)) => { w with issued := w.issued.insert a.jobId (q, a.desc.partition) }
  | _ => w

def Next.pc {N : Type} (q : N) : Next → Pc N
  | .goto o => .busy q o
  | .ret r => .finished q r

variable {N : Type}

/-- One step of thread `i`. -/
def step (queues : N → WorkQueue) : Machine (World N) (Pc N) (Input N)
  | _, w, .idle, .start q c e =>
    if c.possible (queues q) w e then
      some (w.issue q (c.begin (queues q) e), (c.begin (queues q) e).pc q)
    else none
  | i, w, .busy q o, .go e =>
    some ({ w with store := (o.code (queues q) e).cmd.effect i w.store },
      ((o.code (queues q) e).outcome i w.store).pc q)
  | _, w, .busy q o, .fail => some (w, o.fail.pc q)
  | _, w, .busy q _, .crash => some (w, .finished q .abandoned)
  | i, w, .idle, .expire key =>
    if key ∈ w.store.expiring then some ({ w with store := (Cmd.del key).effect i w.store }, .idle)
    else none
  | _, _, _, _ => none

/-- No thread has started. -/
def Conf.initial : Conf (World N) (Pc N) := ⟨World.empty, fun _ => .idle⟩

/-- The runs of a family of queues from an empty server. -/
abbrev Runs (queues : N → WorkQueue) (C : Cond (World N) (Pc N) (Input N)) :=
  Run (step queues) C Conf.initial

/-- Thread `i` makes a call and takes `n` steps, as a piece of a schedule. -/
def callOf (i : ℕ) (c : Call) (n : ℕ) (e : Env := {}) : List (ℕ × Input Unit) :=
  (i, .start () c e) :: List.replicate n (i, .go e)

/-- A queue with the settings `WorkQueueBuilder::new` starts from, to replay schedules on. -/
def testQueue : WorkQueueBuilder where
  queueName := "test"
  parsesParams := fun _ => true
  parsesResult := fun _ => true

/-- The machine of that one queue. -/
abbrev testMachine : Machine (World Unit) (Pc Unit) (Input Unit) := step fun _ => testQueue.queue

section Steps

variable {queues : N → WorkQueue} {i : ℕ} {w w' : World N} {p p' : Pc N} {x : Input N}

/-- Everything one step can do. -/
theorem step_cases (st : step queues i w p x = some (w', p')) :
    (∃ q c e, p = .idle ∧ x = .start q c e ∧ c.possible (queues q) w e = true ∧
      w' = w.issue q (c.begin (queues q) e) ∧ p' = (c.begin (queues q) e).pc q) ∨
    (∃ q o e, p = .busy q o ∧ x = .go e ∧
      w' = { w with store := (o.code (queues q) e).cmd.effect i w.store } ∧
      p' = ((o.code (queues q) e).outcome i w.store).pc q) ∨
    (∃ q o, p = .busy q o ∧ x = .fail ∧ w' = w ∧ p' = o.fail.pc q) ∨
    (∃ q o, p = .busy q o ∧ x = .crash ∧ w' = w ∧ p' = .finished q .abandoned) ∨
    (∃ key, p = .idle ∧ x = .expire key ∧ key ∈ w.store.expiring ∧
      w' = { w with store := (Cmd.del key).effect i w.store } ∧ p' = .idle) := by
  unfold step at st
  split at st
  · rename_i q c e
    split at st
    · rename_i poss
      cases st
      exact .inl ⟨q, c, e, rfl, rfl, poss, rfl, rfl⟩
    · cases st
  · rename_i q o e
    cases st
    exact .inr (.inl ⟨q, o, e, rfl, rfl, rfl, rfl⟩)
  · rename_i q o
    cases st
    exact .inr (.inr (.inl ⟨q, o, rfl, rfl, rfl, rfl⟩))
  · rename_i q o
    cases st
    exact .inr (.inr (.inr (.inl ⟨q, o, rfl, rfl, rfl, rfl⟩)))
  · rename_i key
    split at st
    · rename_i mem
      cases st
      exact .inr (.inr (.inr (.inr ⟨key, rfl, rfl, mem, rfl, rfl⟩)))
    · cases st
  · cases st

/-- A thread in the middle of an operation issues its next command. -/
lemma step_go {n : N} {o : Op} {e : Env}
    (st : step queues i w (.busy n o) (.go e) = some (w', p')) :
    w' = { w with store := (o.code (queues n) e).cmd.effect i w.store } ∧
    p' = ((o.code (queues n) e).outcome i w.store).pc n := by
  cases st
  exact ⟨rfl, rfl⟩

end Steps

@[simp] lemma World.issue_store (w : World N) (q : N) (n : Next) : (w.issue q n).store = w.store := by
  unfold World.issue
  split <;> rfl

/-! ## Which points issue which command -/

/-- The operation is cancelling a job, on its own account or for an expired job it claimed. -/
def Op.cancels (o : Op) (c : CancelPc) : Prop :=
  o = .cancel c ∨ ∃ a remaining, o = .claim (.cancel a remaining c)

/-- The operation is deleting a result, on its own account or for an orphan. -/
def Op.deletes (o : Op) (d : DeletePc) : Prop :=
  o = .delete d ∨ ∃ rest, o = .orphans (.delete d rest)

/-- The commands that change the queue's jobs, claims or stored values. -/
def changesData : Cmd JobId Val Claim → Bool
  | .set _ _ | .setEx _ _ | .del _ | .hset _ _ _ | .hdel _ _ | .zadd _ _ _ | .zpopmin _ | .zrem _ _ =>
    true
  | _ => false

/-- The points that change the queue's data, each with the command it issues. -/
inductive Op.Writes (q : WorkQueue) (e : Env) : Op → Cmd JobId Val Claim → Prop where
  | enqueueSet {a} :
    Writes q e (.enqueue (.set a)) (.set (q.getJobKey a.jobId) (.desc a.desc))
  | enqueueZadd {a} :
    Writes q e (.enqueue (.zadd a))
      (.zadd (q.pending.key a.desc.partition) a.jobId a.priority.score)
  | claimPop {a remaining} :
    Writes q e (.claim (.zpopmin a remaining)) (.zpopmin (q.pending.key a.partition))
  | claimHset {a j priority params} :
    Writes q e (.claim (.hset a j priority params))
      (.hset q.claimsKey j ((Claim.new a.workerId j priority e.now).inPartition a.partition))
  | reclaimHset {j c} : Writes q e (.reclaim (.hset j c)) (.hset q.claimsKey j c)
  | resolveHdel {a d} : Writes q e (.resolve (.hdel a d)) (.hdel q.claimsKey a.jobId)
  | resolveSet {a final cleanup} :
    Writes q e (.resolve (.set a final cleanup))
      (.set (q.getResultKey a.jobId) (.result ⟨final, a.result⟩))
  | resolveSetEx {a final cleanup} :
    Writes q e (.resolve (.setEx a final cleanup))
      (.setEx (q.getResolvedKey a.jobId) (.status final.code))
  | resolveDelJob {a} : Writes q e (.resolve (.delJob a)) (.del (q.getJobKey a.jobId))
  | resolveDelResult {a} : Writes q e (.resolve (.delResult a)) (.del (q.getResultKey a.jobId))
  | cancelZrem {o j p} : o.cancels (.zrem j p) → Writes q e o (.zrem (q.pending.key p) j)
  | cancelDel {o j} : o.cancels (.del j) → Writes q e o (.del (q.getJobKey j))
  | cancelHdel {o j} : o.cancels (.hdel j) → Writes q e o (.hdel q.claimsKey j)
  | checkerZadd {now c rest} :
    Writes q e (.checker (.zadd now c rest))
      (.zadd (q.pending.key c.partition) c.jobId c.priority.score)
  | checkerDel {now c rest} :
    Writes q e (.checker (.del now c rest)) (.del (q.claimsKey ++ ":" ++ c.jobId.text))
  | checkerHdel {now c rest} :
    Writes q e (.checker (.hdel now c rest)) (.hdel q.claimsKey c.jobId)
  | deleteResult {o j} : o.deletes (.delResult j) → Writes q e o (.del (q.getResultKey j))
  | deleteJob {o j} : o.deletes (.delJob j) → Writes q e o (.del (q.getJobKey j))
  | orphanDelJob {j key rest} :
    Writes q e (.orphans (.delJob j key rest)) (.del (q.getJobKey j))
  | orphanDelResult {key rest} : Writes q e (.orphans (.delResult key rest)) (.del key)

section Issuers

variable {q : WorkQueue} {e : Env} {o : Op} {k : String} {j : JobId}

/-- A command that changes data is issued by one of the points that do. -/
theorem Op.writes (h : changesData (o.code q e).cmd = true) : o.Writes q e (o.code q e).cmd := by
  cases o with
  | enqueue p =>
    cases p with
    | set a => exact .enqueueSet
    | zadd a => exact .enqueueZadd
    | _ => cases h
  | claim p =>
    cases p with
    | zpopmin a r => exact .claimPop
    | hset a j priority params => exact .claimHset
    | cancel a r c =>
      cases c with
      | zrem j p => exact .cancelZrem (.inr ⟨a, r, rfl⟩)
      | del j => exact .cancelDel (.inr ⟨a, r, rfl⟩)
      | hdel j => exact .cancelHdel (.inr ⟨a, r, rfl⟩)
      | get j => cases h
    | _ => cases h
  | reclaim p =>
    cases p with
    | hset j c => exact .reclaimHset
    | hget j w => cases h
  | resolve p =>
    cases p with
    | hdel a d => exact .resolveHdel
    | set a f c => exact .resolveSet
    | setEx a f c => exact .resolveSetEx
    | delJob a => exact .resolveDelJob
    | delResult a => exact .resolveDelResult
    | _ => cases h
  | cancel p =>
    cases p with
    | zrem j p => exact .cancelZrem (.inl rfl)
    | del j => exact .cancelDel (.inl rfl)
    | hdel j => exact .cancelHdel (.inl rfl)
    | get j => cases h
  | checker p =>
    cases p with
    | zadd now c rest => exact .checkerZadd
    | del now c rest => exact .checkerDel
    | hdel now c rest => exact .checkerHdel
    | _ => cases h
  | delete p =>
    cases p with
    | delResult j => exact .deleteResult (.inl rfl)
    | delJob j => exact .deleteJob (.inl rfl)
  | orphans p =>
    cases p with
    | delete d rest =>
      cases d with
      | delResult j => exact .deleteResult (.inr ⟨rest, rfl⟩)
      | delJob j => exact .deleteJob (.inr ⟨rest, rfl⟩)
    | next rest => cases rest <;> cases h
    | delJob j key rest => exact .orphanDelJob
    | delResult key rest => exact .orphanDelResult
    | _ => cases h
  | wait p =>
    cases p with
    | status j t s => cases s <;> cases h
    | _ => cases h
  | status p => cases p <;> cases h
  | stats p => cases p <;> cases h

lemma Op.writes_of_eq {c : Cmd JobId Val Claim} (e' : (o.code q e).cmd = c)
    (h : changesData c = true) : o.Writes q e c := by
  rw [← e'] at h ⊢
  exact Op.writes h

/-- Jobs are added to a pending set by `enqueue_job_in` and by the checker. -/
lemma cmd_zadd {n : ℤ} (h : (o.code q e).cmd = .zadd k j n) :
    (∃ a, o = .enqueue (.zadd a) ∧ k = q.pending.key a.desc.partition ∧ j = a.jobId) ∨
    (∃ now c rest, o = .checker (.zadd now c rest) ∧ k = q.pending.key c.partition ∧
      j = c.jobId) := by
  cases Op.writes_of_eq h rfl with
  | enqueueZadd => exact .inl ⟨_, rfl, rfl, rfl⟩
  | checkerZadd => exact .inr ⟨_, _, _, rfl, rfl, rfl⟩

/-- Claims are written by `claim_job_in` and by `reclaim_job`. -/
lemma cmd_hset {c : Claim} (h : (o.code q e).cmd = .hset k j c) :
    k = q.claimsKey ∧
    ((∃ a priority params, o = .claim (.hset a j priority params) ∧
      c = (Claim.new a.workerId j priority e.now).inPartition a.partition) ∨
    o = .reclaim (.hset j c)) := by
  cases Op.writes_of_eq h rfl with
  | claimHset => exact ⟨rfl, .inl ⟨_, _, _, rfl, rfl⟩⟩
  | reclaimHset => exact ⟨rfl, .inr rfl⟩

/-- Claims are deleted by `resolve_job`, by `cancel_job` and by the checker. -/
lemma cmd_hdel (h : (o.code q e).cmd = .hdel k j) :
    k = q.claimsKey ∧
    ((∃ a d, o = .resolve (.hdel a d) ∧ j = a.jobId) ∨ o.cancels (.hdel j) ∨
    (∃ now c rest, o = .checker (.hdel now c rest) ∧ j = c.jobId)) := by
  cases Op.writes_of_eq h rfl with
  | resolveHdel => exact ⟨rfl, .inl ⟨_, _, rfl, rfl⟩⟩
  | cancelHdel c => exact ⟨rfl, .inr (.inl c)⟩
  | checkerHdel => exact ⟨rfl, .inr (.inr ⟨_, _, _, rfl, rfl⟩)⟩

/-- Jobs are taken out of a pending set unseen by `cancel_job` only. -/
lemma cmd_zrem (h : (o.code q e).cmd = .zrem k j) :
    ∃ p, k = q.pending.key p ∧ o.cancels (.zrem j p) := by
  cases Op.writes_of_eq h rfl with
  | cancelZrem c => exact ⟨_, rfl, c⟩

/-- Jobs are popped by `claim_job_in` only. -/
lemma cmd_zpopmin (h : (o.code q e).cmd = .zpopmin k) :
    ∃ a remaining, o = .claim (.zpopmin a remaining) ∧ k = q.pending.key a.partition := by
  cases Op.writes_of_eq h rfl with
  | claimPop => exact ⟨_, _, rfl, rfl⟩

end Issuers

/-! ## Where an operation can come from -/

section Flow

variable {q : WorkQueue} {e : Env} {i : ℕ} {st : Store JobId Val Claim} {o : Op}

lemma Out.lift_goto {π α : Type} {f : π → Op} {g : Except WorkQueueError α → Ret} {out : Out π α}
    {o' : Op} (h : out.lift f g = .goto o') : ∃ p, out = .goto p ∧ o' = f p := by
  cases out with
  | goto p =>
    cases h
    exact ⟨p, rfl, rfl⟩
  | ret r => cases h

lemma Out.lift_ret {π α : Type} {f : π → Op} {g : Except WorkQueueError α → Ret} {out : Out π α}
    {r' : Ret} (h : out.lift f g = .ret r') : ∃ r, out = .ret r ∧ r' = g r := by
  cases out with
  | goto p => cases h
  | ret r =>
    cases h
    exact ⟨r, rfl, rfl⟩

/-- The operation a thread is at after a step it took in the middle of an operation. -/
inductive Op.Goes (q : WorkQueue) (e : Env) (i : ℕ) (st : Store JobId Val Claim) : Op → Op → Prop where
  | enqueue {p p'} : (p.code q).outcome i st = .goto p' → Goes q e i st (.enqueue p) (.enqueue p')
  | claim {p p'} : (p.code q e).outcome i st = .goto p' → Goes q e i st (.claim p) (.claim p')
  | reclaim {p p'} : (p.code q e).outcome i st = .goto p' → Goes q e i st (.reclaim p) (.reclaim p')
  | resolve {p p'} : (p.code q e).outcome i st = .goto p' → Goes q e i st (.resolve p) (.resolve p')
  | cancel {p p'} : (p.code q).outcome i st = .goto p' → Goes q e i st (.cancel p) (.cancel p')
  | checker {p p'} : (p.code q e).outcome i st = .goto p' → Goes q e i st (.checker p) (.checker p')
  | status {p p'} : (p.code q).outcome i st = .goto p' → Goes q e i st (.status p) (.status p')
  | wait {p p'} : (p.code q e).outcome i st = .goto p' → Goes q e i st (.wait p) (.wait p')
  | delete {p p'} : (p.code q).outcome i st = .goto p' → Goes q e i st (.delete p) (.delete p')
  | orphans {p p'} : (p.code q e).outcome i st = .goto p' → Goes q e i st (.orphans p) (.orphans p')
  | stats {p p'} : (p.code q).outcome i st = .goto p' → Goes q e i st (.stats p) (.stats p')

/-- A step never turns one operation into another. -/
lemma Op.goes {o' : Op} (h : (o.code q e).outcome i st = .goto o') : o.Goes q e i st o' := by
  cases o <;> obtain ⟨p', g, rfl⟩ := Out.lift_goto h
  · exact .enqueue g
  · exact .claim g
  · exact .reclaim g
  · exact .resolve g
  · exact .cancel g
  · exact .checker g
  · exact .status g
  · exact .wait g
  · exact .delete g
  · exact .orphans g
  · exact .stats g

/-- After a failed command only the checker goes on. -/
lemma Op.fail_goto {o' : Op} (h : o.fail = .goto o') :
    ∃ p p', o = .checker p ∧ o' = .checker p' ∧ p.fail = .goto p' := by
  cases o with
  | checker p =>
    obtain ⟨p', g, rfl⟩ := Out.lift_goto h
    exact ⟨p, p', rfl, rfl, g⟩
  | _ => cases h

variable {queues : N → WorkQueue} {w w' : World N} {p p' : Pc N} {x : Input N}

/-- How a thread comes to be in the middle of an operation. -/
theorem step_busy {n : N} {o' : Op} (st : step queues i w p x = some (w', .busy n o')) :
    (∃ c e, p = .idle ∧ x = .start n c e ∧ c.possible (queues n) w e = true ∧
      c.Begins (queues n) e o' ∧ w' = w.issue n (.goto o')) ∨
    (∃ o e, p = .busy n o ∧ x = .go e ∧ o.Goes (queues n) e i w.store o' ∧
      w' = { w with store := (o.code (queues n) e).cmd.effect i w.store }) ∨
    (∃ c c', p = .busy n (.checker c) ∧ x = .fail ∧ c.fail = .goto c' ∧ o' = .checker c' ∧
      w' = w) := by
  rcases step_cases st with ⟨q, c, e, rfl, rfl, poss, rfl, eq⟩ | ⟨q, o, e, rfl, rfl, rfl, eq⟩ |
    ⟨q, o, rfl, rfl, rfl, eq⟩ | ⟨q, o, rfl, rfl, rfl, eq⟩ | ⟨key, rfl, rfl, mem, rfl, eq⟩
  · cases hb : c.begin (queues q) e with
    | goto o =>
      rw [hb] at eq
      cases eq
      exact .inl ⟨c, e, rfl, rfl, poss, Call.begins hb, rfl⟩
    | ret r =>
      rw [hb] at eq
      cases eq
  · cases ho : (o.code (queues q) e).outcome i w.store with
    | goto o'' =>
      rw [ho] at eq
      cases eq
      exact .inr (.inl ⟨o, e, rfl, rfl, Op.goes ho, rfl⟩)
    | ret r =>
      rw [ho] at eq
      cases eq
  · cases hf : o.fail with
    | goto o'' =>
      rw [hf] at eq
      cases eq
      obtain ⟨c, c', rfl, rfl, hc⟩ := Op.fail_goto hf
      exact .inr (.inr ⟨c, c', rfl, rfl, hc, rfl, rfl⟩)
    | ret r =>
      rw [hf] at eq
      cases eq
  · cases eq
  · cases eq

end Flow

/-! ## What one step does to the data -/

section Data

variable {queues : N → WorkQueue} {i : ℕ} {w w' : World N} {p p' : Pc N} {x : Input N}
  {k : String} {j : JobId}

/-- The command a step issued, if it changed the store at all. -/
lemma step_store (st : step queues i w p x = some (w', p')) :
    w'.store = w.store ∨
    (∃ q o e, p = .busy q o ∧ x = .go e ∧
      w'.store = (o.code (queues q) e).cmd.effect i w.store) ∨
    (∃ key, x = .expire key ∧ key ∈ w.store.expiring ∧
      w'.store = (Cmd.del key).effect i w.store) := by
  rcases step_cases st with ⟨q, c, e, rfl, rfl, poss, rfl, eq⟩ | ⟨q, o, e, rfl, rfl, rfl, eq⟩ |
    ⟨q, o, rfl, rfl, rfl, eq⟩ | ⟨q, o, rfl, rfl, rfl, eq⟩ | ⟨key, rfl, rfl, mem, rfl, eq⟩
  · exact .inl (by simp)
  · exact .inr (.inl ⟨q, o, e, rfl, rfl, rfl⟩)
  · exact .inl rfl
  · exact .inl rfl
  · exact .inr (.inr ⟨key, rfl, mem, rfl⟩)

/-- How a job comes to be in a sorted set. -/
theorem step_zset_gain (st : step queues i w p x = some (w', p')) (h : j ∈ w'.store.zsets k) :
    j ∈ w.store.zsets k ∨
    (∃ q a e, p = .busy q (.enqueue (.zadd a)) ∧ x = .go e ∧
      k = (queues q).pending.key a.desc.partition ∧ j = a.jobId) ∨
    (∃ q now c rest e, p = .busy q (.checker (.zadd now c rest)) ∧ x = .go e ∧
      k = (queues q).pending.key c.partition ∧ j = c.jobId) := by
  rcases step_store st with eq | ⟨q, o, e, rfl, rfl, eq⟩ | ⟨key, rfl, mem, eq⟩
  · rw [eq] at h
    exact .inl h
  · rw [eq] at h
    rcases Redis.mem_zset_effect h with h | ⟨n, hc⟩
    · exact .inl h
    · rcases cmd_zadd hc with ⟨a, rfl, rfl, rfl⟩ | ⟨now, c, rest, rfl, rfl, rfl⟩
      · exact .inr (.inl ⟨q, a, e, rfl, rfl, rfl, rfl⟩)
      · exact .inr (.inr ⟨q, now, c, rest, e, rfl, rfl, rfl, rfl⟩)
  · rw [eq] at h
    exact .inl h

/-- How a job leaves a sorted set. -/
theorem step_zset_loss (st : step queues i w p x = some (w', p')) (h : j ∈ w.store.zsets k) :
    j ∈ w'.store.zsets k ∨
    (∃ q o part e, p = .busy q o ∧ x = .go e ∧ o.cancels (.zrem j part) ∧
      k = (queues q).pending.key part) ∨
    (∃ q a remaining e n, p = .busy q (.claim (.zpopmin a remaining)) ∧ x = .go e ∧
      k = (queues q).pending.key a.partition ∧ Redis.first (w.store.zsets k) = some (j, n)) := by
  rcases step_store st with eq | ⟨q, o, e, rfl, rfl, eq⟩ | ⟨key, rfl, mem, eq⟩
  · rw [eq]
    exact .inl h
  · rw [eq]
    rcases Redis.zset_effect_of_mem (c := (o.code (queues q) e).cmd) (i := i) h with
      h | hc | ⟨hc, n, hn⟩
    · exact .inl h
    · obtain ⟨part, rfl, cn⟩ := cmd_zrem hc
      exact .inr (.inl ⟨q, o, part, e, rfl, rfl, cn, rfl⟩)
    · obtain ⟨a, r, rfl, rfl⟩ := cmd_zpopmin hc
      exact .inr (.inr ⟨q, a, r, e, n, rfl, rfl, rfl, hn⟩)
  · rw [eq]
    exact .inl h

/-- How a claim comes to be in a hash. -/
theorem step_hash_gain {c : Claim} (st : step queues i w p x = some (w', p'))
    (h : (w'.store.hashes k).lookup j = some c) :
    (w.store.hashes k).lookup j = some c ∨
    (∃ q a priority params e, p = .busy q (.claim (.hset a j priority params)) ∧ x = .go e ∧
      k = (queues q).claimsKey ∧
      c = (Claim.new a.workerId j priority e.now).inPartition a.partition) ∨
    (∃ q e, p = .busy q (.reclaim (.hset j c)) ∧ x = .go e ∧ k = (queues q).claimsKey) := by
  rcases step_store st with eq | ⟨q, o, e, rfl, rfl, eq⟩ | ⟨key, rfl, mem, eq⟩
  · rw [eq] at h
    exact .inl h
  · rw [eq] at h
    rcases Redis.lookup_hash_effect h with h | hc
    · exact .inl h
    · obtain ⟨rfl, ⟨a, priority, params, rfl, rfl⟩ | rfl⟩ := cmd_hset hc
      · exact .inr (.inl ⟨q, a, priority, params, e, rfl, rfl, rfl, rfl⟩)
      · exact .inr (.inr ⟨q, e, rfl, rfl, rfl⟩)
  · rw [eq] at h
    exact .inl h

/-- How a claim changes or leaves a hash. -/
theorem step_hash_loss {c : Claim} (st : step queues i w p x = some (w', p'))
    (h : (w.store.hashes k).lookup j = some c) :
    (w'.store.hashes k).lookup j = some c ∨
    (∃ q o e, p = .busy q o ∧ x = .go e ∧ k = (queues q).claimsKey ∧
      ((∃ c', (o.code (queues q) e).cmd = .hset k j c' ∧
        (w'.store.hashes k).lookup j = some c') ∨
      (∃ a d, o = .resolve (.hdel a d) ∧ j = a.jobId) ∨ o.cancels (.hdel j) ∨
      (∃ now c rest, o = .checker (.hdel now c rest) ∧ j = c.jobId))) := by
  rcases step_store st with eq | ⟨q, o, e, rfl, rfl, eq⟩ | ⟨key, rfl, mem, eq⟩
  · rw [eq]
    exact .inl h
  · rw [eq]
    rcases Redis.hash_effect_of_lookup (c := (o.code (queues q) e).cmd) (i := i) h with
      h | ⟨c', hc⟩ | hc
    · exact .inl h
    · obtain ⟨rfl, -⟩ := cmd_hset hc
      exact .inr ⟨q, o, e, rfl, rfl, rfl, .inl ⟨c', hc, by rw [hc]; simp⟩⟩
    · obtain ⟨rfl, dl⟩ := cmd_hdel hc
      exact .inr ⟨q, o, e, rfl, rfl, rfl, .inr dl⟩
  · rw [eq]
    exact .inl h

/-- How a string key comes to have a value. -/
theorem step_strs_gain {v : Val} (st : step queues i w p x = some (w', p'))
    (h : w'.store.strs.lookup k = some v) :
    w.store.strs.lookup k = some v ∨
    (∃ q a e, p = .busy q (.enqueue (.set a)) ∧ x = .go e ∧ k = (queues q).getJobKey a.jobId ∧
      v = .desc a.desc) ∨
    (∃ q a final cleanup e, p = .busy q (.resolve (.set a final cleanup)) ∧ x = .go e ∧
      k = (queues q).getResultKey a.jobId ∧ v = .result ⟨final, a.result⟩) ∨
    (∃ q a final cleanup e, p = .busy q (.resolve (.setEx a final cleanup)) ∧ x = .go e ∧
      k = (queues q).getResolvedKey a.jobId ∧ v = .status final.code) := by
  rcases step_store st with eq | ⟨q, o, e, rfl, rfl, eq⟩ | ⟨key, rfl, mem, eq⟩
  · rw [eq] at h
    exact .inl h
  · rw [eq] at h
    rcases Redis.lookup_strs_effect h with h | hc | hc
    · exact .inl h
    · cases Op.writes_of_eq hc rfl with
      | enqueueSet => exact .inr (.inl ⟨q, _, e, rfl, rfl, rfl, rfl⟩)
      | resolveSet => exact .inr (.inr (.inl ⟨q, _, _, _, e, rfl, rfl, rfl, rfl⟩))
    · cases Op.writes_of_eq hc rfl with
      | resolveSetEx => exact .inr (.inr (.inr ⟨q, _, _, _, e, rfl, rfl, rfl, rfl⟩))
  · rw [eq] at h
    rcases Redis.lookup_strs_effect h with h | hc | hc
    · exact .inl h
    · cases hc
    · cases hc

end Data

end ArchipelagoXL.Wq
