import ArchipelagoXL.Lib.Interleave

/-!
# A worker and its job

What a worker does with a job that it has claimed (`_handle_job` in `ap-worker/wq.py`): a task reclaims the job
from the lobby again and again, a process runs it (`_job_process`) and the coroutine itself waits for data in the
pipe or for the job to be cancelled. The tasks run in one event loop, so a step here goes from one `await` to the
next, and none is taken while `recv` blocks.

The worker never closes its own copy of the end of the pipe that the process writes to, so the other end is
readable only when there is data in it: the process's end shows nowhere.

Each reclaim is kept for the record, with whether the process had ended without its result in the pipe when the
reclaim started, and whether it refreshed the claim.
-/

namespace ArchipelagoXL.Wq

open Interleave

/-! ## The state -/

/-- The process of a job. -/
inductive JobProcess where
  | alive
  | ended
deriving DecidableEq

/-- How a process ends. -/
inductive ProcessEnd where
  | exits
  | raises
  | failsToPickle
  | isKilled
deriving DecidableEq

/-- What the process has written to the pipe. -/
inductive Sent where
  | nothing
  | part
  | whole
deriving DecidableEq

/-- The coroutine `_handle_job`, before what it does next. -/
inductive Waiter where
  /-- The process is started. -/
  | starting
  /-- In `asyncio.wait`. -/
  | waiting
  /-- In `rpipe.recv`. -/
  | receiving
  /-- In `job.resolve`. -/
  | resolving
  | over_
deriving DecidableEq

/-- The task `reclaim_loop`. -/
inductive Reclaimer where
  | asleep
  /-- In `job.reclaim`. -/
  | awaiting
  | returned
  | stopped
deriving DecidableEq

/-- The request of a reclaim; what the lobby has answered once it has handled it. -/
inductive ReclaimRequest where
  | none_
  | underWay
  | reclaimed
  | gone
deriving DecidableEq

/-- A reclaim, for the record. -/
structure Reclaim where
  startedDead : Bool
  refreshed : Bool
deriving DecidableEq

/-- A job that a worker has claimed; `claimed` says whether the lobby still has the claim, and `reclaims` has the
newest reclaim first. -/
structure Handling where
  waiter : Waiter
  reclaimer : Reclaimer
  request : ReclaimRequest
  process : JobProcess
  sent : Sent
  dataAvailable : Bool
  jobCancelled : Bool
  claimed : Bool
  reclaims : List Reclaim
deriving DecidableEq

/-- What happens next. -/
inductive HandlingInput where
  /-- The coroutine goes on: to its first wait, from a wait, and with the result. -/
  | check
  | wake
  | receive
  | report (resolved : Bool)
  /-- The event loop sees that the pipe is readable. -/
  | readable
  | reclaim
  /-- The lobby handles the request of a reclaim. -/
  | reclaimJob
  | answer
  | reclaimFails
  /-- The lobby cancels the job or gives it to another worker. -/
  | dropClaim
  | send (all : Bool)
  | ends (how : ProcessEnd)
deriving DecidableEq

namespace Handling

/-- A job right after it was claimed. -/
def claimedJob : Handling :=
  ⟨.starting, .asleep, .none_, .alive, .nothing, false, false, true, []⟩

/-- The process has ended, and its result is not in the pipe. -/
def isDead (h : Handling) : Bool := h.process = .ended && h.sent ≠ .whole

/-- Python `rpipe.poll()`. -/
def poll (h : Handling) : Bool := h.sent ≠ .nothing

/-- Python `task.cancel()`. -/
def stopReclaimer (h : Handling) : Handling :=
  { h with reclaimer := if h.reclaimer = .returned then .returned else .stopped }

/-- Python `p.terminate(); p.join()`. -/
def terminate (h : Handling) : Handling := { h with process := .ended }

/-- What follows the waiting loop. -/
def afterLoop (h : Handling) : Handling :=
  if !h.jobCancelled && h.poll then { h with waiter := .receiving }
  else { h.stopReclaimer.terminate with waiter := .over_ }

/-- The head of the waiting loop. -/
def loop (h : Handling) : Handling :=
  if !h.poll && !h.jobCancelled then { h with waiter := .waiting } else h.afterLoop

/-- The coroutine has left the event loop to the other tasks. -/
def loopIsFree (h : Handling) : Bool := h.waiter ≠ .starting && h.waiter ≠ .receiving

/-- What a process can have written when it ends. -/
def canEnd (h : Handling) : ProcessEnd → Bool
  | .exits => h.sent = .whole
  | .failsToPickle => h.sent = .nothing
  | .raises | .isKilled => true

/-- One step of the worker, of the process or of the lobby. -/
def step (h : Handling) : HandlingInput → Option Handling
  | .check => if h.waiter = .starting then some h.loop else none
  | .wake =>
    if h.waiter = .waiting ∧ (h.dataAvailable = true ∨ h.jobCancelled = true) then
      if h.jobCancelled = true then some h.terminate.afterLoop
      else some { h with dataAvailable := false }.loop
    else none
  | .receive =>
    if h.waiter = .receiving ∧ h.sent = .whole then some { h.stopReclaimer with waiter := .resolving } else none
  | .report resolved =>
    if h.waiter = .resolving then some { h with waiter := .over_, claimed := h.claimed && !resolved } else none
  | .readable =>
    if h.waiter = .waiting ∧ h.poll = true then some { h with dataAvailable := true } else none
  | .reclaim =>
    if h.loopIsFree = true ∧ h.reclaimer = .asleep then
      some { h with
        reclaimer := .awaiting
        request := .underWay
        reclaims := ⟨h.isDead, false⟩ :: h.reclaims }
    else none
  | .reclaimJob =>
    if h.request = .underWay then
      if h.claimed = true then
        some { h with
          request := .reclaimed
          reclaims := h.reclaims.modifyHead fun r => { r with refreshed := true } }
      else some { h with request := .gone }
    else none
  | .answer =>
    if h.loopIsFree = true ∧ h.reclaimer = .awaiting then
      match h.request with
      | .reclaimed => some { h with reclaimer := .asleep, request := .none_ }
      | .gone => some { h with reclaimer := .returned, request := .none_, jobCancelled := true }
      | _ => none
    else none
  | .reclaimFails =>
    if h.loopIsFree = true ∧ h.reclaimer = .awaiting then
      some { h with reclaimer := .returned, jobCancelled := true }
    else none
  | .dropClaim => some { h with claimed := false }
  | .send all =>
    if h.process = .alive ∧ h.sent ≠ .whole then some { h with sent := if all then .whole else .part } else none
  | .ends how => if h.process = .alive ∧ h.canEnd how = true then some { h with process := .ended } else none

/-- The job is resolved, or given up, or has a live process or its result in the pipe. -/
def Accounted (h : Handling) : Prop :=
  h.waiter = .over_ ∨ h.jobCancelled = true ∨ h.process = .alive ∨ h.sent = .whole

instance (h : Handling) : Decidable h.Accounted := inferInstanceAs (Decidable (_ ∨ _ ∨ _ ∨ _))

/-- No claim is refreshed after a reclaim that started when the process had ended without its result in the
pipe. -/
def NoDeadRefresh (h : Handling) : Prop :=
  h.reclaims.Pairwise fun newer older => newer.refreshed = true → older.startedDead = false

/-- The process has sent its result when it ends, or the job is given up. -/
def SendsFirst (h : Handling) (_ : Unit) : HandlingInput → Prop
  | .ends _ => h.waiter = .over_ ∨ h.jobCancelled = true ∨ h.sent = .whole
  | _ => True

/-- A reclaim that started when the process had ended without its result is not answered with the claim. -/
def RefusesDead (h : Handling) (_ : Unit) : HandlingInput → Prop
  | .answer => h.request = .reclaimed → ∀ r ∈ h.reclaims.head?, r.startedDead = false
  | _ => True

end Handling

/-- The worker, the process and the lobby as a machine. -/
def handleJobMachine : Machine Handling Unit HandlingInput := fun _ h _ x => (h.step x).map (·, ())

def jobClaimed : Conf Handling Unit := ⟨Handling.claimedJob, fun _ => ()⟩

/-! ## What a step does -/

namespace Handling

/-- The writes of the steps. -/
inductive Moves (h : Handling) : HandlingInput → Handling → Prop where
  | goesOn {x} (waiter dataAvailable) :
    h.waiter ≠ .over_ → waiter = .waiting ∨ waiter = .receiving →
    Moves h x { h with waiter := waiter, dataAvailable := dataAvailable }
  | givesUp {x dataAvailable} :
    Moves h x { h.stopReclaimer.terminate with waiter := .over_, dataAvailable := dataAvailable }
  | receives : h.sent = .whole → Moves h .receive { h.stopReclaimer with waiter := .resolving }
  | reports (resolved) :
    h.waiter = .resolving → Moves h (.report resolved) { h with waiter := .over_, claimed := h.claimed && !resolved }
  | notes {x} (dataAvailable request claimed) :
    Moves h x { h with dataAvailable := dataAvailable, request := request, claimed := claimed }
  | begins :
    h.reclaimer = .asleep →
    Moves h .reclaim
      { h with reclaimer := .awaiting, request := .underWay, reclaims := ⟨h.isDead, false⟩ :: h.reclaims }
  | refreshes :
    Moves h .reclaimJob
      { h with
        request := .reclaimed
        reclaims := h.reclaims.modifyHead fun r => { r with refreshed := true } }
  | sleeps :
    h.reclaimer = .awaiting → h.request = .reclaimed →
    Moves h .answer { h with reclaimer := .asleep, request := .none_ }
  | returns {x} (request) :
    Moves h x { h with reclaimer := .returned, request := request, jobCancelled := true }
  | sends (all sent) : h.sent ≠ .whole → Moves h (.send all) { h with sent := sent }
  | ends (how) : Moves h (.ends how) { h with process := .ended }

lemma loop_moves {h : Handling} (goesOn : h.waiter ≠ .over_) (dataAvailable : Bool) (x : HandlingInput) :
    h.Moves x { h with dataAvailable := dataAvailable }.loop := by
  rw [loop, afterLoop]
  split
  · exact .goesOn .waiting dataAvailable goesOn (.inl rfl)
  · split
    · exact .goesOn .receiving dataAvailable goesOn (.inr rfl)
    · exact .givesUp

lemma step_moves {h w : Handling} {x : HandlingInput} (st : h.step x = some w) : h.Moves x w := by
  cases x with
  | check =>
    rw [step] at st
    split at st
    · rename_i starting
      cases st
      exact loop_moves (by rw [starting]; exact Waiter.noConfusion) h.dataAvailable _
    · cases st
  | wake =>
    rw [step] at st
    split at st
    · rename_i wakes
      split at st
      · rename_i cancelled
        cases st
        rw [afterLoop, show h.terminate.jobCancelled = true from cancelled]
        exact .givesUp
      · cases st
        exact loop_moves (by rw [wakes.1]; exact Waiter.noConfusion) false _
    · cases st
  | receive =>
    rw [step] at st
    split at st
    · rename_i ready
      cases st
      exact .receives ready.2
    · cases st
  | report resolved =>
    rw [step] at st
    split at st
    · rename_i resolving
      cases st
      exact .reports resolved resolving
    · cases st
  | readable =>
    rw [step] at st
    split at st
    · cases st
      exact .notes true h.request h.claimed
    · cases st
  | reclaim =>
    rw [step] at st
    split at st
    · rename_i asleep
      cases st
      exact .begins asleep.2
    · cases st
  | reclaimJob =>
    rw [step] at st
    split at st
    · split at st
      · cases st
        exact .refreshes
      · cases st
        exact .notes h.dataAvailable .gone h.claimed
    · cases st
  | answer =>
    rw [step] at st
    split at st
    · rename_i awaiting
      split at st
      · rename_i reclaimed
        cases st
        exact .sleeps awaiting.2 reclaimed
      · cases st
        exact .returns .none_
      · cases st
    · cases st
  | reclaimFails =>
    rw [step] at st
    split at st
    · cases st
      exact .returns h.request
    · cases st
  | dropClaim =>
    cases st
    exact .notes h.dataAvailable h.request false
  | send all =>
    rw [step] at st
    split at st
    · rename_i canSend
      cases st
      exact .sends all _ canSend.2
    · cases st
  | ends how =>
    rw [step] at st
    split at st
    · cases st
      exact .ends how
    · cases st

/-- The reclaims are over once the job is given up or its result is received. -/
def Stopped (h : Handling) : Prop :=
  h.jobCancelled = true ∨ h.waiter = .resolving ∨ h.waiter = .over_ → h.reclaimer = .returned ∨ h.reclaimer = .stopped

lemma stopReclaimer_stopped (h : Handling) :
    h.stopReclaimer.reclaimer = .returned ∨ h.stopReclaimer.reclaimer = .stopped := by
  rw [stopReclaimer]
  dsimp only
  split
  · exact .inl rfl
  · exact .inr rfl

lemma Stopped.moves {h w : Handling} {x : HandlingInput} (stopped : h.Stopped) (moves : h.Moves x w) :
    w.Stopped := by
  intro over_
  cases moves with
  | goesOn waiter dataAvailable _ goes =>
    rcases over_ with cancelled | resolving | isOver
    · exact stopped (.inl cancelled)
    · rcases goes with rfl | rfl <;> cases resolving
    · rcases goes with rfl | rfl <;> cases isOver
  | givesUp => exact h.stopReclaimer_stopped
  | receives => exact h.stopReclaimer_stopped
  | reports resolved resolving => exact stopped (.inr (.inl resolving))
  | notes dataAvailable request claimed => exact stopped over_
  | begins asleep =>
    have := stopped over_
    rw [asleep] at this
    rcases this with e | e <;> cases e
  | refreshes => exact stopped over_
  | sleeps awaiting =>
    have := stopped over_
    rw [awaiting] at this
    rcases this with e | e <;> cases e
  | returns request => exact .inl rfl
  | sends all sent => exact stopped over_
  | ends how => exact stopped over_

lemma Accounted.moves {h w : Handling} {x : HandlingInput} (accounted : h.Accounted) (moves : h.Moves x w)
    (sendsFirst : h.SendsFirst () x) : w.Accounted := by
  cases moves with
  | goesOn waiter dataAvailable goesOn => exact .inr (accounted.resolve_left goesOn)
  | givesUp => exact .inl rfl
  | receives sent => exact .inr (.inr (.inr sent))
  | reports => exact .inl rfl
  | returns => exact .inr (.inl rfl)
  | sends all sent isOpen =>
    rcases accounted with isOver | cancelled | alive | whole
    · exact .inl isOver
    · exact .inr (.inl cancelled)
    · exact .inr (.inr (.inl alive))
    · exact absurd whole isOpen
  | ends how =>
    rcases sendsFirst with isOver | cancelled | whole
    · exact .inl isOver
    · exact .inr (.inl cancelled)
    · exact .inr (.inr (.inr whole))
  | notes => exact accounted
  | begins => exact accounted
  | refreshes => exact accounted
  | sleeps => exact accounted

/-- The end of the process is the one step at which a job can stop to be accounted for. -/
lemma Accounted.sendsFirst {h w : Handling} {x : HandlingInput} (st : h.step x = some w) (accounted : w.Accounted) :
    h.SendsFirst () x := by
  cases x with
  | ends how =>
    rw [step] at st
    split at st
    · cases st
      rcases accounted with isOver | cancelled | ended | whole
      · exact .inl isOver
      · exact .inr (.inl cancelled)
      · cases ended
      · exact .inr (.inr whole)
    · cases st
  | _ => trivial

/-- While the job is accounted for, no reclaim starts with the process dead. -/
lemma isDead_of_asleep {h : Handling} (accounted : h.Accounted) (stopped : h.Stopped) (asleep : h.reclaimer = .asleep) :
    h.isDead = false := by
  have running : ¬ (h.jobCancelled = true ∨ h.waiter = .resolving ∨ h.waiter = .over_) := by
    intro isOver
    rcases stopped isOver with e | e
    · cases asleep.symm.trans e
    · cases asleep.symm.trans e
  rw [isDead]
  rcases accounted with isOver | cancelled | alive | whole
  · exact absurd (.inr (.inr isOver)) running
  · exact absurd (.inl cancelled) running
  · rw [alive]
    rfl
  · rw [whole]
    exact Bool.and_false _

/-- What is known of the reclaims where one that started dead is not answered with the claim. -/
structure LastOnlyDead (h : Handling) : Prop where
  older : ∀ r ∈ h.reclaims.tail, r.startedDead = false
  asleep : h.reclaimer = .asleep → ∀ r ∈ h.reclaims, r.startedDead = false

lemma LastOnlyDead.moves {h w : Handling} {x : HandlingInput} (last : h.LastOnlyDead) (moves : h.Moves x w)
    (refuses : h.RefusesDead () x) : w.LastOnlyDead := by
  cases moves with
  | begins asleep => exact ⟨last.asleep asleep, fun awaiting => by cases awaiting⟩
  | refreshes =>
    cases reclaims : h.reclaims with
    | nil => exact ⟨fun r mem => (by cases mem), fun _ r mem => (by cases mem)⟩
    | cons newest older =>
      refine ⟨?_, fun asleep r mem => ?_⟩
      · have := last.older
        rwa [reclaims] at this
      · have all := last.asleep asleep
        rw [reclaims] at all
        rcases List.mem_cons.mp mem with rfl | mem
        · exact all newest List.mem_cons_self
        · exact all r (List.mem_cons_of_mem _ mem)
  | sleeps awaiting reclaimed =>
    refine ⟨last.older, fun _ r mem => ?_⟩
    replace mem : r ∈ h.reclaims := mem
    have newest := refuses reclaimed
    have older := last.older
    cases reclaims : h.reclaims with
    | nil =>
      rw [reclaims] at mem
      cases mem
    | cons first rest =>
      rw [reclaims] at mem newest older
      rcases List.mem_cons.mp mem with rfl | mem
      · exact newest r rfl
      · exact older r mem
  | givesUp =>
    refine ⟨last.older, fun asleep => ?_⟩
    rcases h.stopReclaimer_stopped with e | e
    · cases asleep.symm.trans e
    · cases asleep.symm.trans e
  | receives =>
    refine ⟨last.older, fun asleep => ?_⟩
    rcases h.stopReclaimer_stopped with e | e
    · cases asleep.symm.trans e
    · cases asleep.symm.trans e
  | returns => exact ⟨last.older, fun asleep => by cases asleep⟩
  | goesOn => exact ⟨last.older, last.asleep⟩
  | reports => exact ⟨last.older, last.asleep⟩
  | notes => exact ⟨last.older, last.asleep⟩
  | sends => exact ⟨last.older, last.asleep⟩
  | ends => exact ⟨last.older, last.asleep⟩

/-- While no reclaim has started with the process dead, none does from an accounted state. -/
lemma Accounted.aliveReclaims {h w : Handling} {x : HandlingInput} (accounted : h.Accounted) (stopped : h.Stopped)
    (alive : ∀ r ∈ h.reclaims, r.startedDead = false) (moves : h.Moves x w) :
    ∀ r ∈ w.reclaims, r.startedDead = false := by
  cases moves with
  | begins asleep =>
    intro r mem
    rcases List.mem_cons.mp mem with rfl | mem
    · exact isDead_of_asleep accounted stopped asleep
    · exact alive r mem
  | refreshes =>
    intro r mem
    cases reclaims : h.reclaims with
    | nil =>
      rw [reclaims] at mem
      cases mem
    | cons newest older =>
      rw [reclaims] at mem alive
      rcases List.mem_cons.mp mem with rfl | mem
      · exact alive newest List.mem_cons_self
      · exact alive r (List.mem_cons_of_mem _ mem)
  | _ => exact alive

lemma LastOnlyDead.noDeadRefresh {h : Handling} (last : h.LastOnlyDead) : h.NoDeadRefresh := by
  have older := last.older
  rw [NoDeadRefresh]
  cases reclaims : h.reclaims with
  | nil => exact .nil
  | cons newest rest =>
    rw [reclaims] at older
    refine .cons (fun r mem _ => older r mem) ?_
    exact List.pairwise_of_forall_mem_list fun _ _ r mem _ => older r mem

end Handling

/-! ## Runs -/

lemma handle_step {h w : Handling} {i : ℕ} {p p' : Unit} {x : HandlingInput}
    (st : handleJobMachine i h p x = some (w, p')) : h.step x = some w := by
  obtain ⟨w', to_, made⟩ := Option.map_eq_some_iff.mp st
  cases made
  exact to_

lemma accounted_claimed : jobClaimed.shared.Accounted := .inr (.inr (.inl rfl))

/-- A job stays resolved, given up, with a live process or with its result in the pipe exactly along the runs
where the process has sent its result when it ends, and no reclaim starts there with the process dead; where a
reclaim that did is not answered with the claim, the claim is not refreshed after it. -/
theorem claim_kept_while_accounted {tr : List (Event Unit HandlingInput)} {s : Conf Handling Unit} :
    (Run handleJobMachine (Cond.here Handling.SendsFirst) jobClaimed tr s →
      s.shared.Accounted ∧ ∀ r ∈ s.shared.reclaims, r.startedDead = false) ∧
    (Run handleJobMachine (Cond.leadsTo handleJobMachine Handling.Accounted) jobClaimed tr s →
      Run handleJobMachine (Cond.here Handling.SendsFirst) jobClaimed tr s) ∧
    (Run handleJobMachine (Cond.here Handling.RefusesDead) jobClaimed tr s → s.shared.NoDeadRefresh) := by
  refine ⟨fun run => ?_, fun run => ?_, fun run => ?_⟩
  · have all : s.shared.Accounted ∧ s.shared.Stopped ∧ ∀ r ∈ s.shared.reclaims, r.startedDead = false := by
      refine run.invariant (I := fun _ s => s.shared.Accounted ∧ s.shared.Stopped ∧
        ∀ r ∈ s.shared.reclaims, r.startedDead = false) ?_ ?_
      · refine ⟨accounted_claimed, fun isOver => ?_, fun r mem => by cases mem⟩
        rcases isOver with e | e | e <;> cases e
      · rintro tr s i x w p ⟨accounted, stopped, alive⟩ sendsFirst st
        have moves := Handling.step_moves (handle_step st)
        exact ⟨accounted.moves moves sendsFirst, stopped.moves moves, accounted.aliveReclaims stopped alive moves⟩
    exact ⟨all.1, all.2.2⟩
  · refine (Run.keeps_iff (c := Handling.SendsFirst) (K := fun _ => True) accounted_claimed (fun _ => trivial) ?_).2 run
    intro s i x w p _ accounted st
    have st := handle_step st
    exact ⟨fun sendsFirst => accounted.moves (Handling.step_moves st) sendsFirst, Handling.Accounted.sendsFirst st⟩
  · refine Handling.LastOnlyDead.noDeadRefresh ?_
    refine run.invariant (I := fun _ s => s.shared.LastOnlyDead) ?_ ?_
    · exact ⟨fun r mem => (by cases mem), fun _ r mem => (by cases mem)⟩
    · intro tr s i x w p last refuses st
      exact last.moves (Handling.step_moves (handle_step st)) refuses

/-- The process is killed without its result between two reclaims. -/
def killedProcess : List (ℕ × HandlingInput) :=
  [(0, .check), (0, .reclaim), (0, .reclaimJob), (0, .answer), (0, .ends .isKilled), (0, .reclaim), (0, .reclaimJob),
    (0, .answer), (0, .reclaim), (0, .reclaimJob), (0, .answer)]

/-- The claim of a job whose process was killed is refreshed again and again, and nothing is left to end it. -/
theorem killed_process_keeps_claim :
    ∃ tr s, Run handleJobMachine Cond.any jobClaimed tr s ∧ ¬ s.shared.NoDeadRefresh ∧ ¬ s.shared.Accounted := by
  refine ⟨_, _, exec_run_any (l := killedProcess) (by decide), ?_, by decide⟩
  have reclaims : (finalOf handleJobMachine jobClaimed killedProcess).shared.reclaims =
      [⟨true, true⟩, ⟨true, true⟩, ⟨false, true⟩] := by decide
  rw [Handling.NoDeadRefresh, reclaims]
  decide

end ArchipelagoXL.Wq
