import ArchipelagoXL.Wq.Placement

/-!
# Partition isolation

A worker is only given jobs of the partition it asks for. The partition of a job is carried by the
pending set it is in, by its description and by its claim; `Placed` says that all of them agree with
the call that enqueued the job, so what is left is to follow the claimer's own partition from the call
to the job it returns (`claimer_run`) and the job back to the call that made it (`issued_run`).
-/

namespace ArchipelagoXL.Wq

open Redis (Instr Cmd Store)
open Interleave

variable {N : Type} {queues : N → WorkQueue}

/-- The trace has a call that enqueued `j` through queue `n` in a partition that normalizes to `p`. -/
def EnqueuedBy (queues : N → WorkQueue) (tr : List (Event (Pc N) (Input N))) (n : N) (j : JobId)
    (p : Option String) : Prop :=
  ∃ ev ∈ tr, ∃ part params priority deadlineIn e,
    ev.input = .start n (.enqueueJobIn part params priority deadlineIn) e ∧ e.fresh = j ∧
    (queues n).pending.normalize part = .ok p

lemma EnqueuedBy.cons {tr : List (Event (Pc N) (Input N))} {n j p ev}
    (h : EnqueuedBy queues tr n j p) : EnqueuedBy queues (ev :: tr) n j p := by
  obtain ⟨ev', mem, h⟩ := h
  exact ⟨ev', List.mem_cons_of_mem _ mem, h⟩

/-- An id is new, or was given out before. -/
lemma issued_of_step {i : ℕ} {w w' : World N} {p p' : Pc N} {x : Input N} {j : JobId}
    {v : N × Option String} (st : step queues i w p x = some (w', p'))
    (h : w'.issued.lookup j = some v) :
    w.issued.lookup j = some v ∨
    ∃ part params priority deadlineIn e,
      x = .start v.1 (.enqueueJobIn part params priority deadlineIn) e ∧ e.fresh = j ∧
      (queues v.1).pending.normalize part = .ok v.2 := by
  rcases step_cases st with ⟨q, c, e, rfl, rfl, poss, rfl, eq⟩ | ⟨q, o, e, rfl, rfl, rfl, eq⟩ |
    ⟨q, o, rfl, rfl, rfl, eq⟩ | ⟨q, o, rfl, rfl, rfl, eq⟩ | ⟨key, rfl, rfl, mem, rfl, eq⟩
  · cases c with
    | enqueueJobIn part params priority deadlineIn =>
      simp only [Call.begin] at h
      split at h
      · exact .inl h
      · rename_i p hn
        by_cases ej : j = e.fresh
        · subst ej
          simp only [World.issue, AList.lookup_insert, Option.some.injEq] at h
          subst h
          exact .inr ⟨part, params, priority, deadlineIn, e, rfl, rfl, hn⟩
        · simp only [World.issue, AList.lookup_insert_ne ej] at h
          exact .inl h
    | claimJobIn part wk =>
      simp only [Call.begin] at h
      split at h <;> exact .inl h
    | resolveJob wk j' s r =>
      simp only [Call.begin] at h
      split at h <;> exact .inl h
    | _ => exact .inl h
  · exact .inl h
  · exact .inl h
  · exact .inl h
  · exact .inl h

/-- Every id that was given out comes from a call in the trace. -/
lemma issued_run {C : Cond (World N) (Pc N) (Input N)} {tr s} (run : Runs queues C tr s)
    {j n p} (h : s.shared.issued.lookup j = some (n, p)) : EnqueuedBy queues tr n j p := by
  induction run with
  | nil => cases h
  | @cons tr s i x w pc _ _ st ih =>
    rcases issued_of_step st h with h | ⟨part, params, priority, dl, e, rfl, hj, hn⟩
    · exact (ih h).cons
    · exact ⟨_, List.mem_cons_self, part, params, priority, dl, e, rfl, hj, hn⟩

/-- Where a thread that called `claim_job_in` can be: still claiming in the partition it named, done
with a job of that partition, or done without one. -/
def Claiming (queues : N → WorkQueue) (w : World N) (n : N) (part : Option String) (pc : Pc N) : Prop :=
  (∃ p, pc = .busy n (.claim p) ∧ (queues n).pending.normalize part = .ok p.claimer.partition) ∨
  (∃ job p, pc = .finished n (.claimed (.ok (some job))) ∧
    (queues n).pending.normalize part = .ok p ∧ w.owned queues n job.jobId p) ∨
  (∃ n' r, pc = .finished n' r ∧ ∀ job, r ≠ .claimed (.ok (some job)))

/-- A claiming thread stays one. -/
lemma claiming_step {s : Conf (World N) (Pc N)} (inv : Placed queues s)
    {i : ℕ} {x : Input N} {w : World N} {p : Pc N} {n : N} {part : Option String}
    (st : step queues i s.shared (s.pc i) x = some (w, p))
    (h : Claiming queues s.shared n part (s.pc i)) : Claiming queues w n part p := by
  rcases h with ⟨pc, hpc, hn⟩ | ⟨job, p', hpc, hn, ho⟩ | ⟨n', r, hpc, hr⟩
  · rw [hpc] at st
    rcases step_cases st with ⟨_, _, _, eq, -⟩ | ⟨q, o, e, eq, rfl, rfl, rfl⟩ |
      ⟨q, o, eq, rfl, rfl, rfl⟩ | ⟨q, o, eq, rfl, rfl, rfl⟩ | ⟨_, eq, -⟩
    · cases eq
    · cases eq
      cases ho : (pc.code (queues n) e).outcome i s.shared.store with
      | goto pc' =>
        refine .inl ⟨pc', ?_, ?_⟩
        · simp [Op.code, ho, Out.lift, Next.pc]
        · rw [ClaimPc.claimer_goto ho]
          exact hn
      | ret r =>
        have eq : (((Op.claim pc).code (queues n) e).outcome i s.shared.store).pc n =
            .finished n (.claimed r) := by
          simp [Op.code, ho, Out.lift, Next.pc]
        by_cases hr : ∃ job, r = .ok (some job)
        · obtain ⟨job, rfl⟩ := hr
          obtain ⟨a, priority, params, rfl⟩ := ClaimPc.ret_some ho
          exact .inr (.inl ⟨job, _, eq, hn, inv.threads hpc job.jobId rfl⟩)
        · refine .inr (.inr ⟨n, _, eq, ?_⟩)
          rintro job ⟨rfl⟩
          exact hr ⟨job, rfl⟩
    · cases eq
      exact .inr (.inr ⟨n, _, rfl, by simp⟩)
    · cases eq
      exact .inr (.inr ⟨n, _, rfl, by simp⟩)
    · cases eq
  · rw [hpc] at st
    cases x <;> cases st
  · rw [hpc] at st
    cases x <;> cases st

/-- A thread that called `claim_job_in` is where such a thread can be. -/
lemma claimer_run (co : Coherent queues) {C : Cond (World N) (Pc N) (Input N)} {tr s}
    (run : Runs queues C tr s) {ev : Event (Pc N) (Input N)} (mem : ev ∈ tr) {n part wk e}
    (he : ev.input = .start n (.claimJobIn part wk) e) :
    Claiming queues s.shared n part (s.pc ev.tid) := by
  induction run with
  | nil => cases mem
  | @cons tr s i x w pc run _ st ih =>
    have inv := placed_run co run
    rcases List.mem_cons.1 mem with rfl | mem
    · -- the call itself
      simp only at he ⊢
      subst he
      rcases step_cases st with ⟨q, c, e', hpc, eq, poss, rfl, rfl⟩ | ⟨q, o, e', hpc, eq, -⟩ |
        ⟨q, o, hpc, eq, -⟩ | ⟨q, o, hpc, eq, -⟩ | ⟨key, hpc, eq, -⟩ <;> cases eq
      simp only [Conf.move_pc_self, Call.begin]
      cases hn : (queues n).pending.normalize part with
      | error err => exact .inr (.inr ⟨n, _, rfl, by simp⟩)
      | ok p => exact .inl ⟨_, rfl, hn⟩
    · have h := ih mem
      by_cases e : ev.tid = i
      · rw [e] at h ⊢
        rw [Conf.move_pc_self]
        exact claiming_step inv st h
      · rw [Conf.move_pc_of_ne e]
        rcases h with h | ⟨job, p, hpc, hn, ho⟩ | h
        · exact .inl h
        · exact .inr (.inl ⟨job, p, hpc, hn, ho.mono (step_issued st)⟩)
        · exact .inr (.inr h)

/-- Partition isolation. The pending sets of different normalized partitions, the descriptions of
different jobs and a pending set and a description never share a key; along every run a job is only
ever in the pending set of the partition it was enqueued in; and `claim_job_in` only returns a job
whose `enqueue_job_in` named a partition with the same normal form. -/
theorem partition_isolation {b : WorkQueueBuilder} {q : WorkQueue} (hq : b.build = .ok q) :
    (∀ p p', q.pending.key p = q.pending.key p' → p = p') ∧
    (∀ j j', q.getJobKey j = q.getJobKey j' → j = j') ∧
    (∀ p j, q.pending.key p ≠ q.getJobKey j) ∧
    ∀ tr s, Runs (fun _ : Unit => q) Cond.any tr s →
      (∀ k j, j ∈ s.shared.store.zsets k →
        ∃ p, EnqueuedBy (fun _ : Unit => q) tr () j p ∧ k = q.pending.key p) ∧
      ∀ ev ∈ tr, ∀ part wk e job, ev.input = .start () (.claimJobIn part wk) e →
        s.pc ev.tid = .finished () (.claimed (.ok (some job))) →
        ∃ p, EnqueuedBy (fun _ : Unit => q) tr () job.jobId p ∧
          q.pending.normalize part = .ok p := by
  have built := WorkQueueBuilder.build_built hq
  have co := coherent_one hq
  refine ⟨fun _ _ => built.key_inj, fun _ _ => built.jobKey_inj, built.key_ne_jobKey, ?_⟩
  intro tr s run
  refine ⟨?_, ?_⟩
  · intro k j h
    obtain ⟨n, p, hl, hk⟩ := (placed_run co run).pending h
    exact ⟨p, issued_run run hl, hk⟩
  · intro ev mem part wk e job he hpc
    rcases claimer_run co run mem he with ⟨p, eq, -⟩ | ⟨job', p, eq, hn, n', hl, -⟩ |
      ⟨n', r, eq, hr⟩
    · rw [hpc] at eq
      cases eq
    · rw [hpc] at eq
      cases eq
      exact ⟨p, issued_run run hl, hn⟩
    · rw [hpc] at eq
      cases eq
      exact absurd rfl (hr job)

/-- One worker enqueues a job for a version, another one asks for a job of that version. -/
def versionSchedule : List (ℕ × Input Unit) :=
  callOf 0 (.enqueueJobIn (some "0.6.8") "" .normal 60) 4 ++ callOf 1 (.claimJobIn (some "0.6.8") "w") 4

/-- The job enqueued for one version is given to the worker that asks for that version. -/
theorem partition_isolation_claim :
    ∃ tr s, Runs (fun _ : Unit => testQueue.queue) Cond.any tr s ∧
      s.pc 1 = .finished () (.claimed (.ok (some ⟨⟨0⟩, ""⟩))) ∧
      ∃ p, EnqueuedBy (fun _ : Unit => testQueue.queue) tr () ⟨0⟩ p ∧
        testQueue.queue.pending.normalize (some "0.6.8") = .ok p := by
  have run : Runs (fun _ : Unit => testQueue.queue) Cond.any _ _ :=
    exec_run_any (l := versionSchedule) (by decide)
  have done : (finalOf testMachine Conf.initial versionSchedule).pc 1 =
      .finished () (.claimed (.ok (some ⟨⟨0⟩, ""⟩))) := by
    decide
  have call : ⟨1, .idle, .start () (.claimJobIn (some "0.6.8") "w") {},
      .busy () (.claim (.subscribe ⟨some "0.6.8", "w"⟩))⟩ ∈
        traceOf testMachine Conf.initial versionSchedule := by
    decide
  obtain ⟨-, -, -, h⟩ := partition_isolation (b := testQueue) (q := testQueue.queue) rfl
  exact ⟨_, _, run, done, (h _ _ run).2 _ call _ _ _ _ rfl done⟩

end ArchipelagoXL.Wq
