import ArchipelagoXL.Wq.Partition
import ArchipelagoXL.Wq.Resolve

/-!
# No job is lost

Between its enqueuing and its end a job is kept by a pending set, by the claims, by a claimer that has
popped it, or by a `resolve_job` that has deleted the claim and not yet stored the result. The last two
live in the memory of a process: an error or a crash there loses the job (`job_lost`), and so does a pass
of the checker that deletes the claim of somebody who claimed the job after the pass had put it back.
`InCustody` leaves these steps out; then every job that was enqueued and not cancelled, not found
expired and not resolved is kept (`kept_run`).
-/

namespace ArchipelagoXL.Wq

open Redis (Instr Cmd Store)
open Interleave

variable {q : WorkQueue}

/-! ## A job's fate, as the trace shows it -/

/-- `enqueue_job_in` puts the job into its pending set. -/
def enqueuesJob (j : JobId) (ev : Event (Pc Unit) (Input Unit)) : Bool :=
  match ev.before, ev.input with
  | .busy _ (.enqueue (.zadd a)), .go _ => a.jobId = j
  | _, _ => false

/-- A cancellation of the job takes it out of its pending set. -/
def cancelsJob (j : JobId) (ev : Event (Pc Unit) (Input Unit)) : Bool :=
  match ev.before, ev.input with
  | .busy _ (.cancel (.zrem j' _)), .go _ => j' = j
  | .busy _ (.claim (.cancel _ _ (.zrem j' _))), .go _ => j' = j
  | _, _ => false

/-- A claimer finds the job past its deadline. -/
def expiresJob (j : JobId) (ev : Event (Pc Unit) (Input Unit)) : Bool :=
  match ev.before, ev.after with
  | .busy _ (.claim (.get _ _ j' _)), .busy _ (.claim (.cancel _ _ _)) => j' = j
  | _, _ => false

/-- The job was enqueued and not cancelled, not found expired and not resolved. -/
structure Alive (tr : List (Event (Pc Unit) (Input Unit))) (j : JobId) : Prop where
  enqueued : ∃ ev ∈ tr, enqueuesJob j ev = true
  cancelled : ∀ ev ∈ tr, cancelsJob j ev = false
  expired : ∀ ev ∈ tr, expiresJob j ev = false
  resolved : ∀ ev ∈ tr, storesResult j ev = false

/-- The operation has popped the job or is resolving it. -/
def Pc.carries (j : JobId) : Pc Unit → Bool
  | .busy _ (.claim p) => p.inHand = some j
  | .busy _ (.resolve p) => p.call.jobId = j
  | _ => false

/-- Every job that is alive and in no operation's hands is pending in its partition or claimed. -/
def NoneLost (q : WorkQueue) (tr : List (Event (Pc Unit) (Input Unit)))
    (s : Conf (World Unit) (Pc Unit)) : Prop :=
  ∀ j, Alive tr j → (∀ i, (s.pc i).carries j = false) →
    (∃ p, EnqueuedBy (fun _ => q) tr () j p ∧ j ∈ s.shared.store.zsets (q.pending.key p)) ∨
    (s.shared.store.hashes q.claimsKey).lookup j ≠ none

/-- A claimer pops a job and its process dies. -/
def lossSchedule : List (ℕ × Input Unit) :=
  callOf 0 (.enqueueJobIn none "" .normal 60) 3 ++ callOf 1 (.claimJobIn none "w") 2 ++ [(1, .crash)]

/-- The popped job is neither pending nor claimed. -/
theorem job_lost :
    ¬ ∀ tr s, Runs (fun _ : Unit => testQueue.queue) Cond.any tr s →
      NoneLost testQueue.queue tr s := by
  intro all
  have run : Runs (fun _ : Unit => testQueue.queue) Cond.any
      (traceOf testMachine Conf.initial lossSchedule)
      (finalOf testMachine Conf.initial lossSchedule) :=
    exec_run_any (by decide)
  have alive : Alive (traceOf testMachine Conf.initial lossSchedule) ⟨0⟩ :=
    ⟨by decide, by decide, by decide, by decide⟩
  have free : ∀ i, ((finalOf testMachine Conf.initial lossSchedule).pc i).carries ⟨0⟩ = false := by
    apply finalOf_forall (P := fun _ (p : Pc Unit) => p.carries ⟨0⟩ = false) (b := 2)
    · intro k
      rfl
    · decide
    · decide
  have issued : (finalOf testMachine Conf.initial lossSchedule).shared.issued.lookup ⟨0⟩ =
      some ((), none) := by
    decide
  have unpending : ⟨0⟩ ∉ (finalOf testMachine Conf.initial lossSchedule).shared.store.zsets
      (testQueue.queue.pending.key none) := by
    decide
  have unclaimed : ((finalOf testMachine Conf.initial lossSchedule).shared.store.hashes
      testQueue.queue.claimsKey).lookup ⟨0⟩ = none := by
    decide
  rcases all _ _ run ⟨0⟩ alive free with ⟨p, -, pending⟩ | claimed
  · have placed := placed_run (coherent_one (b := testQueue) (q := testQueue.queue) rfl) run
    rw [placed.key_of_pending issued pending] at pending
    exact unpending pending
  · exact claimed unclaimed

/-! ## The condition -/

/-- What the next step of an operation needs so that no job is lost: who has a job in memory goes on,
and can read its description; the claim that the checker deletes is not the only thing left of its
job. -/
def Op.keeps (q : WorkQueue) (s : Conf (World Unit) (Pc Unit)) (x : Input Unit) : Op → Prop
  | .claim (.get _ _ j _) => ∃ e d, x = .go e ∧
      q.readDesc (s.shared.store.strs.lookup (q.getJobKey j)) = .ok d
  | .claim (.hset _ _ _ _) => ∃ e, x = .go e
  | .resolve (.callback _ _) => ∃ e, x = .go e
  | .resolve (.set _ _ _) => ∃ e, x = .go e
  | .checker (.hdel _ c _) => ∀ e, x = .go e →
      (s.shared.store.hashes q.claimsKey).lookup c.jobId = none ∨
      c.jobId ∈ s.shared.store.zsets (q.pending.key c.partition) ∨ ∃ k, (s.pc k).holds c.jobId
  | _ => True

def InCustody (q : WorkQueue) : Cond (World Unit) (Pc Unit) (Input Unit) := fun _ s i x =>
  ∀ o, s.pc i = .busy () o → o.keeps q s x

/-! ## Scores and cancellations -/

/-- Pending jobs have the score of a priority. -/
lemma scored_run {C : Cond (World Unit) (Pc Unit) (Input Unit)} {tr s}
    (run : Runs (fun _ : Unit => q) C tr s) {k : String} {j : JobId} {n : ℤ}
    (h : (s.shared.store.zsets k).lookup j = some n) : ∃ p : Priority, n = p.score := by
  induction run with
  | nil => cases h
  | @cons tr s i x w p run _ st ih =>
    rcases step_store st with eq | ⟨q', o, e, hpc, rfl, eq⟩ | ⟨key, rfl, mem, eq⟩
    · rw [Conf.move_shared, eq] at h
      exact ih h
    · rw [Conf.move_shared, eq] at h
      rcases Redis.lookup_zset_effect h with h | hc
      · exact ih h
      · cases Op.writes_of_eq hc rfl with
        | enqueueZadd => exact ⟨_, rfl⟩
        | checkerZadd => exact ⟨_, rfl⟩
    · rw [Conf.move_shared, eq] at h
      exact ih h

/-- A cancellation past its `ZREM` is in the trace. -/
lemma cancelled_run {C : Cond (World Unit) (Pc Unit) (Input Unit)} {tr s}
    (run : Runs (fun _ : Unit => q) C tr s) {i : ℕ} {o : Op} {j : JobId}
    (hpc : s.pc i = .busy () o) (h : o.cancels (.del j) ∨ o.cancels (.hdel j)) :
    ∃ ev ∈ tr, cancelsJob j ev = true := by
  induction run generalizing i o with
  | nil => cases hpc
  | @cons tr s k x w p run _ st ih =>
    have old : (∃ o₀, s.pc i = .busy () o₀ ∧ (o₀.cancels (.del j) ∨ o₀.cancels (.hdel j))) →
        ∃ ev ∈ (⟨k, s.pc k, x, p⟩ :: tr : List _), cancelsJob j ev = true := by
      rintro ⟨o₀, hpc, h⟩
      obtain ⟨ev, mem, hev⟩ := ih hpc h
      exact ⟨ev, List.mem_cons_of_mem _ mem, hev⟩
    rcases s.move_pc k w p i with ⟨rfl, moved⟩ | ⟨-, moved⟩ <;> rw [moved] at hpc
    · subst hpc
      rcases h with h | h
      · rcases step_cancels st h with ⟨j', eq⟩ | ⟨o₀, c, e, hpc, hc, rfl, g⟩
        · cases eq
        · -- this step is the `ZREM`
          obtain ⟨part, rfl⟩ := CancelPc.goto_del g
          refine ⟨_, List.mem_cons_self, ?_⟩
          rcases hc with rfl | ⟨a, r, rfl⟩
          · simp [cancelsJob, hpc]
          · simp [cancelsJob, hpc]
      · rcases step_cancels st h with ⟨j', eq⟩ | ⟨o₀, c, e, hpc, hc, rfl, g⟩
        · cases eq
        · obtain rfl := CancelPc.goto_hdel g
          exact old ⟨o₀, hpc, .inl hc⟩
    · exact old ⟨o, hpc, h⟩

/-! ## Every run -/

/-- The resolve has deleted the claim and not stored the result. -/
def Pc.midway (p : Pc Unit) (j : JobId) : Prop :=
  ∃ a, a.jobId = j ∧ ((∃ d, p = .busy () (.resolve (.callback a d))) ∨
    ∃ final cleanup, p = .busy () (.resolve (.set a final cleanup)))

/-- Where a job is kept. -/
inductive Kept (q : WorkQueue) (s : Conf (World Unit) (Pc Unit)) (j : JobId) : Prop where
  | pending {k} : j ∈ s.shared.store.zsets k → Kept q s j
  | claimed {c} : (s.shared.store.hashes q.claimsKey).lookup j = some c → Kept q s j
  | hand {i} : (s.pc i).holds j → Kept q s j
  | midway {i} : (s.pc i).midway j → Kept q s j

/-- The step does something that ends the job's life. -/
def endsJob (j : JobId) (ev : Event (Pc Unit) (Input Unit)) : Prop :=
  cancelsJob j ev = true ∨ expiresJob j ev = true ∨ storesResult j ev = true

/-- A thread that does not move keeps what it has. -/
lemma kept_other {s : Conf (World Unit) (Pc Unit)} {j : JobId} {i k : ℕ} {w : World Unit}
    {p : Pc Unit} (ne : k ≠ i) (h : (s.pc k).holds j ∨ (s.pc k).midway j) :
    Kept q (s.move i w p) j := by
  rw [← Conf.move_pc_of_ne (w := w) (p := p) ne] at h
  rcases h with h | h
  · exact .hand h
  · exact .midway h

/-- A pending job stays pending or is popped, unless it is cancelled. -/
lemma kept_pending {C : Cond (World Unit) (Pc Unit) (Input Unit)} {tr s}
    (run : Runs (fun _ : Unit => q) C tr s) {j : JobId} {i : ℕ} {x : Input Unit} {w : World Unit}
    {p : Pc Unit} (st : step (fun _ => q) i s.shared (s.pc i) x = some (w, p)) {k : String}
    (h : j ∈ s.shared.store.zsets k) :
    Kept q (s.move i w p) j ∨ endsJob j ⟨i, s.pc i, x, p⟩ := by
  rcases step_zset_loss st h with h | ⟨n, o, part, e, hpc, rfl, cn, -⟩ |
    ⟨n, a, r, e, score, hpc, rfl, rfl, hf⟩
  · exact .inl (.pending h)
  · refine .inr (.inl ?_)
    rcases cn with rfl | ⟨a, r, rfl⟩
    · simp [cancelsJob, hpc]
    · simp [cancelsJob, hpc]
  · -- the popped job is in the claimer's hand, since its score is a priority
    obtain ⟨priority, rfl⟩ := scored_run run (Redis.first_lookup hf)
    rw [hpc] at st
    obtain ⟨-, rfl⟩ := step_go st
    refine .inl (.hand (i := i) ?_)
    rw [Conf.move_pc_self]
    refine ⟨n, .claim (.get a r j priority), ?_, _, rfl, rfl⟩
    simp [Op.code, ClaimPc.code, Instr.outcome, Instr.map, Cmd.reply, hf, Out.lift, Next.pc]

/-- A claim stays, or its job goes to where the claim's deletion leaves it. -/
lemma kept_claimed {C : Cond (World Unit) (Pc Unit) (Input Unit)} {tr s}
    (run : Runs (fun _ : Unit => q) C tr s) {j : JobId} {i : ℕ} {x : Input Unit} {w : World Unit}
    {p : Pc Unit} (cond : InCustody q tr s i x)
    (st : step (fun _ => q) i s.shared (s.pc i) x = some (w, p)) {c : Claim}
    (h : (s.shared.store.hashes q.claimsKey).lookup j = some c)
    (alive : ∀ ev ∈ tr, cancelsJob j ev = false) : Kept q (s.move i w p) j := by
  rcases step_hash_loss st h with h | ⟨n, o, e, hpc, rfl, -, h'⟩
  · exact .claimed h
  · rcases h' with ⟨c', -, hc⟩ | ⟨a, d, rfl, rfl⟩ | cn | ⟨now, c₀, rest, rfl, rfl⟩
    · exact .claimed hc
    · -- the resolve goes on to the callback or to storing the result
      rw [hpc] at st
      obtain ⟨-, rfl⟩ := step_go st
      refine .midway (i := i) ?_
      rw [Conf.move_pc_self]
      refine ⟨a, rfl, ?_⟩
      cases hcb : q.hasCallback with
      | true =>
        refine .inl ⟨d, ?_⟩
        simp [Op.code, ResolvePc.code, Instr.outcome, Instr.map, hcb, Out.lift, Next.pc]
      | false =>
        refine .inr ⟨a.status, false, ?_⟩
        simp [Op.code, ResolvePc.code, Instr.outcome, Instr.map, hcb, Out.lift, Next.pc]
    · obtain ⟨ev, mem, hev⟩ := cancelled_run run hpc (.inr cn)
      rw [alive ev mem] at hev
      cases hev
    · rcases cond _ hpc e rfl with none | pending | ⟨k, hk⟩
      · rw [none] at h
        cases h
      · rcases kept_pending run st pending with kept | ends
        · exact kept
        · simp [endsJob, cancelsJob, expiresJob, storesResult, hpc] at ends
      · refine kept_other (k := k) ?_ (.inl hk)
        rintro rfl
        obtain ⟨n, o, eq, pc, rfl, -⟩ := hk
        rw [hpc] at eq
        cases eq

/-- A job in hand is claimed, unless it is found expired. -/
lemma kept_hand {tr : List (Event (Pc Unit) (Input Unit))} {s : Conf (World Unit) (Pc Unit)}
    {j : JobId} {i : ℕ} {x : Input Unit} {w : World Unit} {p : Pc Unit}
    (cond : InCustody q tr s i x)
    (st : step (fun _ => q) i s.shared (s.pc i) x = some (w, p)) (h : (s.pc i).holds j) :
    Kept q (s.move i w p) j ∨ endsJob j ⟨i, s.pc i, x, p⟩ := by
  obtain ⟨n, o, hpc, c, rfl, hj⟩ := h
  have keeps := cond _ hpc
  cases c with
  | get a r j' priority =>
    cases hj
    obtain ⟨e, d, rfl, hd⟩ := keeps
    rw [hpc] at st
    obtain ⟨-, rfl⟩ := step_go st
    simp only [Op.code, Instr.map_outcome, ClaimPc.inHand_get hd]
    split
    · refine .inr (.inr (.inl ?_))
      simp [expiresJob, hpc, Out.lift, Next.pc]
    · refine .inl (.hand (i := i) ?_)
      rw [Conf.move_pc_self]
      exact ⟨n, _, rfl, _, rfl, rfl⟩
  | hset a j' priority params =>
    cases hj
    obtain ⟨e, rfl⟩ := keeps
    rw [hpc] at st
    obtain ⟨rfl, -⟩ := step_go st
    refine .inl (.claimed (c := (Claim.new a.workerId j priority e.now).inPartition a.partition) ?_)
    simp [Op.code, ClaimPc.code, Instr.map]
  | _ => cases hj

/-- A resolve that has deleted the claim stores the result. -/
lemma kept_midway {tr : List (Event (Pc Unit) (Input Unit))} {s : Conf (World Unit) (Pc Unit)}
    {j : JobId} {i : ℕ} {x : Input Unit} {w : World Unit} {p : Pc Unit}
    (cond : InCustody q tr s i x)
    (st : step (fun _ => q) i s.shared (s.pc i) x = some (w, p)) (h : (s.pc i).midway j) :
    Kept q (s.move i w p) j ∨ endsJob j ⟨i, s.pc i, x, p⟩ := by
  obtain ⟨a, rfl, ⟨d, hpc⟩ | ⟨final, cleanup, hpc⟩⟩ := h
  · obtain ⟨e, rfl⟩ := cond _ hpc
    rw [hpc] at st
    obtain ⟨-, rfl⟩ := step_go st
    refine .inl (.midway (i := i) ⟨a, rfl, .inr ?_⟩)
    rw [Conf.move_pc_self]
    cases hcb : e.callback with
    | ok processed =>
      refine ⟨a.status, processed, ?_⟩
      simp [Op.code, ResolvePc.code, Instr.outcome, Instr.map, hcb, Out.lift, Next.pc]
    | error err =>
      refine ⟨.internalError, true, ?_⟩
      simp [Op.code, ResolvePc.code, Instr.outcome, Instr.map, hcb, Out.lift, Next.pc]
  · obtain ⟨e, rfl⟩ := cond _ hpc
    refine .inr (.inr (.inr ?_))
    simp [storesResult, hpc]

/-- A step in custody leaves a living job somewhere. -/
lemma kept_step {C : Cond (World Unit) (Pc Unit) (Input Unit)} {tr s}
    (run : Runs (fun _ : Unit => q) C tr s) {j : JobId} {i : ℕ} {x : Input Unit} {w : World Unit}
    {p : Pc Unit} (cond : InCustody q tr s i x)
    (st : step (fun _ => q) i s.shared (s.pc i) x = some (w, p))
    (alive : ∀ ev ∈ tr, cancelsJob j ev = false) (kept : Kept q s j) :
    Kept q (s.move i w p) j ∨ endsJob j ⟨i, s.pc i, x, p⟩ := by
  cases kept with
  | pending h => exact kept_pending run st h
  | claimed h => exact .inl (kept_claimed run cond st h alive)
  | @hand k h =>
    rcases eq_or_ne k i with rfl | ne
    · exact kept_hand cond st h
    · exact .inl (kept_other ne (.inl h))
  | @midway k h =>
    rcases eq_or_ne k i with rfl | ne
    · exact kept_midway cond st h
    · exact .inl (kept_other ne (.inr h))

lemma Alive.not_ends {tr : List (Event (Pc Unit) (Input Unit))} {ev} {j : JobId}
    (al : Alive (ev :: tr) j) : ¬ endsJob j ev := by
  rintro (h | h | h)
  · rw [al.cancelled ev List.mem_cons_self] at h
    cases h
  · rw [al.expired ev List.mem_cons_self] at h
    cases h
  · rw [al.resolved ev List.mem_cons_self] at h
    cases h

/-- In every run in custody every living job is kept somewhere. -/
lemma kept_run {tr s} (run : Runs (fun _ : Unit => q) (InCustody q) tr s) {j : JobId}
    (al : Alive tr j) : Kept q s j := by
  induction run with
  | nil =>
    obtain ⟨ev, mem, -⟩ := al.enqueued
    cases mem
  | @cons tr s i x w p run cond st ih =>
    obtain ⟨ev, mem, hev⟩ := al.enqueued
    rcases List.mem_cons.1 mem with rfl | mem
    · -- the job is put into its pending set by this very step
      unfold enqueuesJob at hev
      split at hev
      · rename_i n a e hpc hx
        simp only at hpc hx
        subst hx
        rw [hpc] at st
        obtain ⟨rfl, -⟩ := step_go st
        have ej : a.jobId = j := of_decide_eq_true hev
        refine .pending (k := q.pending.key a.desc.partition) ?_
        simp [Op.code, EnqueuePc.code, Instr.map, ej]
      · cases hev
    · have before : Alive tr j :=
        ⟨⟨ev, mem, hev⟩, fun ev h => al.cancelled ev (List.mem_cons_of_mem _ h),
          fun ev h => al.expired ev (List.mem_cons_of_mem _ h),
          fun ev h => al.resolved ev (List.mem_cons_of_mem _ h)⟩
      rcases kept_step run cond st before.cancelled (ih before) with kept | ends
      · exact kept
      · exact absurd ends al.not_ends

/-- In every run in custody no job is lost. -/
theorem none_lost {b : WorkQueueBuilder} {q : WorkQueue} (hq : b.build = .ok q) {tr s}
    (run : Runs (fun _ : Unit => q) (InCustody q) tr s) : NoneLost q tr s := by
  intro j al free
  cases kept_run run al with
  | @pending k h =>
    obtain ⟨n, p, hl, rfl⟩ := (placed_run (coherent_one hq) run).pending h
    exact .inl ⟨p, issued_run run hl, h⟩
  | claimed h => exact .inr (by simp [h])
  | @hand i h =>
    obtain ⟨n, o, hpc, c, rfl, hj⟩ := h
    have no := free i
    simp [hpc, Pc.carries, hj] at no
  | @midway i h =>
    obtain ⟨a, rfl, ⟨d, hpc⟩ | ⟨final, cleanup, hpc⟩⟩ := h
    · have no := free i
      simp [hpc, Pc.carries, ResolvePc.call] at no
    · have no := free i
      simp [hpc, Pc.carries, ResolvePc.call] at no

/-- A job is enqueued and claimed. -/
def custodySchedule : List (ℕ × Input Unit) :=
  callOf 0 (.enqueueJobIn none "" .normal 60) 3 ++ callOf 1 (.claimJobIn none "w") 4

/-- What `InCustody` asks of the next step, where it can be read off. -/
def Op.calmlyKept (q : WorkQueue) (st : Store JobId Val Claim) (x : Input Unit) : Op → Bool
  | .claim (.get _ _ j _) =>
    match x, q.readDesc (st.strs.lookup (q.getJobKey j)) with
    | .go _, .ok _ => true
    | _, _ => false
  | .claim (.hset _ _ _ _) =>
    match x with
    | .go _ => true
    | _ => false
  | .resolve (.callback _ _) => false
  | .resolve (.set _ _ _) => false
  | .checker (.hdel _ _ _) => false
  | _ => true

lemma Op.keeps_of_calm {s : Conf (World Unit) (Pc Unit)} {x : Input Unit} {o : Op}
    (h : o.calmlyKept q s.shared.store x = true) : o.keeps q s x := by
  cases o with
  | claim p =>
    cases p with
    | get a r j priority =>
      simp only [Op.calmlyKept] at h
      split at h
      · exact ⟨_, _, rfl, ‹_›⟩
      · cases h
    | hset a j priority params =>
      simp only [Op.calmlyKept] at h
      split at h
      · exact ⟨_, rfl⟩
      · cases h
    | _ => trivial
  | resolve p =>
    cases p with
    | callback a d => cases h
    | set a final cleanup => cases h
    | _ => trivial
  | checker p =>
    cases p with
    | hdel now c rest => cases h
    | _ => trivial
  | _ => trivial

/-- The thread's operation, if it has one, passes that check. -/
def Pc.calmlyKept (q : WorkQueue) (st : Store JobId Val Claim) (x : Input Unit) : Pc Unit → Bool
  | .busy _ o => o.calmlyKept q st x
  | _ => true

/-- The enqueued job is claimed. -/
theorem none_lost_run :
    ∃ tr s, Runs (fun _ : Unit => testQueue.queue) (InCustody testQueue.queue) tr s ∧ Alive tr ⟨0⟩ ∧
      NoneLost testQueue.queue tr s := by
  have calm : ∀ m < 9, (custodySchedule[m]?.all fun a =>
      ((finalOf testMachine Conf.initial (custodySchedule.take m)).pc a.1).calmlyKept testQueue.queue
        (finalOf testMachine Conf.initial (custodySchedule.take m)).shared.store a.2) = true := by
    decide
  have run : Runs (fun _ : Unit => testQueue.queue) (InCustody testQueue.queue)
      (traceOf testMachine Conf.initial custodySchedule)
      (finalOf testMachine Conf.initial custodySchedule) := by
    refine exec_run (by decide) ?_
    intro m i x h o hpc
    have kept := calm m (List.getElem?_eq_some_iff.1 h).1
    rw [h] at kept
    simp only [Option.all_some, hpc, Pc.calmlyKept] at kept
    exact Op.keeps_of_calm kept
  have alive : Alive (traceOf testMachine Conf.initial custodySchedule) ⟨0⟩ :=
    ⟨by decide, by decide, by decide, by decide⟩
  exact ⟨_, _, run, alive, none_lost (b := testQueue) (q := testQueue.queue) rfl run⟩

end ArchipelagoXL.Wq
