import ArchipelagoXL.Lib.SortedSet
import ArchipelagoXL.Wq.Placement

/-!
# Priorities

A job is enqueued with a priority, and its id is never given out again (`originalPriority_unique`). The
priority goes with the job: into the score it is pending with, from there to the claimer that pops it,
into its claim, and from the claim back into a score when the checker finds the claim expired. `Ranked`
says that in all these places it is the original one, which holds along every run (`ranked_run`); so the
checker puts a job back where it was (`put_back`).
-/

namespace ArchipelagoXL.Wq

open Redis (Instr Cmd Store)
open Interleave

variable {N : Type} {queues : N → WorkQueue}

/-- The trace has a call that enqueued `j` with priority `pr`. -/
def OriginalPriority (queues : N → WorkQueue) (tr : List (Event (Pc N) (Input N))) (j : JobId)
    (pr : Priority) : Prop :=
  ∃ ev ∈ tr, ∃ n part params deadlineIn e p,
    ev.input = .start n (.enqueueJobIn part params pr deadlineIn) e ∧ e.fresh = j ∧
    (queues n).pending.normalize part = .ok p

lemma OriginalPriority.cons {tr : List (Event (Pc N) (Input N))} {j pr ev}
    (h : OriginalPriority queues tr j pr) : OriginalPriority queues (ev :: tr) j pr := by
  obtain ⟨ev', mem, h⟩ := h
  exact ⟨ev', List.mem_cons_of_mem _ mem, h⟩

/-- The call gives the id out. -/
lemma enqueue_issues {i : ℕ} {w w' : World N} {p p' : Pc N} {n : N} {part params pr deadlineIn} {e : Env}
    {norm : Option String}
    (st : step queues i w p (.start n (.enqueueJobIn part params pr deadlineIn) e) = some (w', p'))
    (hn : (queues n).pending.normalize part = .ok norm) :
    e.fresh ∉ w.issued ∧ w'.issued.lookup e.fresh = some (n, norm) := by
  rcases step_cases st with ⟨q, c, e', -, eq, poss, rfl, -⟩ | ⟨_, _, _, -, eq, -⟩ | ⟨_, _, -, eq, -⟩ |
    ⟨_, _, -, eq, -⟩ | ⟨_, -, eq, -⟩ <;> cases eq
  refine ⟨?_, by simp [Call.begin, hn, World.issue]⟩
  simp only [Call.possible, Bool.and_eq_true, decide_eq_true_eq] at poss
  exact poss.1

lemma originalPriority_issued {C : Cond (World N) (Pc N) (Input N)} {tr s} (run : Runs queues C tr s)
    {j pr} (h : OriginalPriority queues tr j pr) : j ∈ s.shared.issued := by
  induction run with
  | nil =>
    obtain ⟨ev, mem, -⟩ := h
    cases mem
  | cons _ _ st ih =>
    rw [← AList.lookup_isSome, Option.isSome_iff_exists]
    obtain ⟨ev, mem, n, part, params, dl, e, p, input, rfl, hn⟩ := h
    rcases List.mem_cons.1 mem with rfl | mem
    · simp only at input
      subst input
      exact ⟨_, (enqueue_issues st hn).2⟩
    · obtain ⟨v, hv⟩ := Option.isSome_iff_exists.1
        (AList.lookup_isSome.2 (ih ⟨ev, mem, n, part, params, dl, e, p, input, rfl, hn⟩))
      exact ⟨v, step_issued st hv⟩

/-- A job has one original priority. -/
theorem originalPriority_unique {C : Cond (World N) (Pc N) (Input N)} {tr s} (run : Runs queues C tr s)
    {j pr pr'} (h : OriginalPriority queues tr j pr) (h' : OriginalPriority queues tr j pr') :
    pr = pr' := by
  induction run with
  | nil =>
    obtain ⟨ev, mem, -⟩ := h
    cases mem
  | @cons tr s i x w pc run _ st ih =>
    -- an older call would have given the id out before
    have older : ∀ {n part params pr dl e p}, x = .start n (.enqueueJobIn part params pr dl) e →
        (queues n).pending.normalize part = .ok p → ∀ {pr₀}, ¬ OriginalPriority queues tr e.fresh pr₀ := by
      rintro n part params pr dl e p rfl hn pr₀ h
      exact (enqueue_issues st hn).1 (originalPriority_issued run h)
    obtain ⟨ev, mem, n, part, params, dl, e, p, input, rfl, hn⟩ := h
    obtain ⟨ev', mem', n', part', params', dl', e', p', input', same, hn'⟩ := h'
    rcases List.mem_cons.1 mem with rfl | mem
    · rcases List.mem_cons.1 mem' with rfl | mem'
      · simp only at input input'
        rw [input] at input'
        cases input'
        rfl
      · exact (older input hn ⟨ev', mem', n', part', params', dl', e', p', input', same, hn'⟩).elim
    · rcases List.mem_cons.1 mem' with rfl | mem'
      · have before : OriginalPriority queues tr e'.fresh pr :=
          ⟨ev, mem, n, part, params, dl, e, p, input, same.symm, hn⟩
        exact (older input' hn' before).elim
      · exact ih ⟨ev, mem, n, part, params, dl, e, p, input, rfl, hn⟩
          ⟨ev', mem', n', part', params', dl', e', p', input', same, hn'⟩

/-! ## The priority goes with the job -/

/-- The job a claimer has popped and not claimed yet, with the priority it was popped with. -/
def ClaimPc.popped : ClaimPc → Option (JobId × Priority)
  | .get _ _ j pr | .hset _ j pr _ => some (j, pr)
  | _ => none

/-- A job gets into a claimer's hand with the priority of its score. -/
lemma ClaimPc.popped_goto {q : WorkQueue} {e : Env} {i : ℕ} {st : Store JobId Val Claim} {p p' : ClaimPc}
    {j : JobId} {pr : Priority} (h : (p.code q e).outcome i st = .goto p')
    (hj : p'.popped = some (j, pr)) :
    p.popped = some (j, pr) ∨
    ∃ k n, Redis.first (st.zsets k) = some (j, n) ∧ Priority.ofScore n = some pr := by
  cases p with
  | subscribe a =>
    cases h
    cases hj
  | zpopmin a r =>
    simp only [code, Instr.outcome, Cmd.reply] at h
    split at h
    · cases h
      cases hj
    · rename_i j' n hf
      split at h <;> cases h
      rename_i hs
      cases hj
      exact .inr ⟨_, n, hf, hs⟩
  | get a r j' priority =>
    simp only [code, Instr.outcome] at h
    split at h
    · cases h
    · split at h <;> cases h
      · cases hj
      · exact .inl hj
  | cancel a r c =>
    simp only [code, Instr.map_outcome] at h
    split at h <;> cases h <;> cases hj
  | recv a r =>
    simp only [code, Instr.outcome] at h
    split at h <;> split at h <;> cases h <;> cases hj
  | hset a j' priority params => cases h

variable {R R' : JobId → Priority → Prop}

/-- The jobs an operation has in its local variables are there with a priority `R` gives them. -/
def Op.ranked (R : JobId → Priority → Prop) : Op → Prop
  | .enqueue p => R p.job.jobId p.job.priority
  | .claim p => ∀ j pr, p.popped = some (j, pr) → R j pr
  | .reclaim (.hset j c) => c.jobId = j ∧ R j c.priority
  | .checker p => ∀ c ∈ p.claims, R c.jobId c.priority
  | _ => True

/-- Everywhere a job is, it is with a priority `R` gives it. -/
structure Ranked (R : JobId → Priority → Prop) (s : Conf (World N) (Pc N)) : Prop where
  pending : ∀ {k j n}, (s.shared.store.zsets k).lookup j = some n → ∃ pr, R j pr ∧ n = pr.score
  claims : ∀ {k j c}, (s.shared.store.hashes k).lookup j = some c → c.jobId = j ∧ R j c.priority
  threads : ∀ {i n o}, s.pc i = .busy n o → o.ranked R

lemma Op.ranked.mono (le : ∀ {j pr}, R j pr → R' j pr) {o : Op} (h : o.ranked R) : o.ranked R' := by
  cases o with
  | enqueue p => exact le h
  | claim p => exact fun j pr hj => le (h j pr hj)
  | reclaim p =>
    cases p with
    | hget j wk => trivial
    | hset j c => exact ⟨h.1, le h.2⟩
  | checker p => exact fun c hc => le (h c hc)
  | _ => trivial

/-- What an operation reads it has with the priority it is stored with. -/
lemma ranked_goes {s : Conf (World N) (Pc N)} (inv : Ranked R s) {i : ℕ} {q : WorkQueue} {o o' : Op}
    {e : Env} (h : o.ranked R) (g : o.Goes q e i s.shared.store o') : o'.ranked R := by
  cases g with
  | @enqueue p p' g =>
    show R p'.job.jobId p'.job.priority
    rw [EnqueuePc.job_goto g]
    exact h
  | claim g =>
    intro j pr hj
    rcases ClaimPc.popped_goto g hj with hj | ⟨k, n, hf, hs⟩
    · exact h j pr hj
    · obtain ⟨pr', known, rfl⟩ := inv.pending (Redis.first_lookup hf)
      rw [Priority.ofScore_score, Option.some.injEq] at hs
      exact hs ▸ known
  | @reclaim p p' g =>
    cases p' with
    | hget j wk => trivial
    | hset j c =>
      obtain ⟨wk, c₀, rfl, hc, rfl⟩ := ReclaimPc.goto_hset g
      obtain ⟨eq, known⟩ := inv.claims hc
      exact ⟨eq, known⟩
  | checker g =>
    intro c hc
    rcases CheckerPc.goto_claims g with ⟨rfl, rfl⟩ | ⟨sub, -⟩
    · obtain ⟨⟨j, c'⟩, mem, rfl⟩ := List.mem_map.1 hc
      obtain ⟨rfl, known⟩ := inv.claims (AList.mem_lookup_iff.2 mem)
      exact known
    · exact h c (sub hc)
  | _ => trivial

/-- How a job comes to have its score. -/
lemma step_score_gain {i : ℕ} {w w' : World N} {p p' : Pc N} {x : Input N} {k : String} {j : JobId}
    {n : ℤ} (st : step queues i w p x = some (w', p')) (h : (w'.store.zsets k).lookup j = some n) :
    (w.store.zsets k).lookup j = some n ∨
    (∃ q a, p = .busy q (.enqueue (.zadd a)) ∧ j = a.jobId ∧ n = a.priority.score) ∨
    (∃ q now c rest, p = .busy q (.checker (.zadd now c rest)) ∧ j = c.jobId ∧
      n = c.priority.score) := by
  rcases step_store st with eq | ⟨q, o, e, rfl, rfl, eq⟩ | ⟨key, rfl, mem, eq⟩
  · rw [eq] at h
    exact .inl h
  · rw [eq] at h
    rcases Redis.lookup_zset_effect h with h | hc
    · exact .inl h
    · cases Op.writes_of_eq hc rfl with
      | enqueueZadd => exact .inr (.inl ⟨q, _, rfl, rfl, rfl⟩)
      | checkerZadd => exact .inr (.inr ⟨q, _, _, _, rfl, rfl, rfl⟩)
  · rw [eq] at h
    exact .inl h

lemma ranked_initial : Ranked (N := N) R Conf.initial where
  pending h := by cases h
  claims h := by cases h
  threads h := by cases h

/-- Along every run a job is everywhere with the priority it was enqueued with. -/
theorem ranked_run {C : Cond (World N) (Pc N) (Input N)} {tr s} (run : Runs queues C tr s) :
    Ranked (OriginalPriority queues tr) s := by
  refine run.invariant (I := fun tr s => Ranked (OriginalPriority queues tr) s) ranked_initial ?_
  intro tr s i x w p inv _ st
  refine ⟨fun {k j n} h => ?_, fun {k j c} h => ?_, fun {k n o} h => ?_⟩
  · rcases step_score_gain st h with h | ⟨q, a, hpc, rfl, rfl⟩ | ⟨q, now, c, rest, hpc, rfl, rfl⟩
    · obtain ⟨pr, known, eq⟩ := inv.pending h
      exact ⟨pr, known.cons, eq⟩
    · have known : OriginalPriority queues tr a.jobId a.priority := inv.threads hpc
      exact ⟨_, known.cons, rfl⟩
    · exact ⟨_, (inv.threads hpc c List.mem_cons_self).cons, rfl⟩
  · rcases step_hash_gain st h with h | ⟨n, a, priority, params, e, hpc, rfl, rfl, rfl⟩ |
      ⟨n, e, hpc, rfl, rfl⟩
    · obtain ⟨eq, known⟩ := inv.claims h
      exact ⟨eq, known.cons⟩
    · exact ⟨rfl, (inv.threads hpc j priority rfl).cons⟩
    · obtain ⟨eq, known⟩ := inv.threads hpc
      exact ⟨eq, known.cons⟩
  · rcases s.move_pc i w p k with ⟨rfl, e⟩ | ⟨-, e⟩ <;> rw [e] at h
    · subst h
      rcases step_busy st with ⟨c, e, hpc, rfl, poss, hb, rfl⟩ | ⟨o', e, hpc, rfl, g, rfl⟩ |
        ⟨c, c', hpc, rfl, hf, rfl, rfl⟩
      · cases hb with
        | enqueue hn => exact ⟨_, List.mem_cons_self, n, _, _, _, _, _, rfl, rfl, hn⟩
        | claim hn =>
          intro j pr hj
          cases hj
        | checker =>
          intro c hc
          cases hc
        | _ => trivial
      · exact (ranked_goes inv (inv.threads hpc) g).mono OriginalPriority.cons
      · exact fun c₁ hc₁ => (inv.threads hpc c₁ ((CheckerPc.fail_claims hf).1 hc₁)).cons
    · exact (inv.threads h).mono OriginalPriority.cons

lemma text_injective : Function.Injective (Redis.HasText.text : JobId → String) :=
  fun _ _ => Uuid.text_injective

/-- A job of an expired claim is put back into the place of its original priority and its id. -/
theorem put_back {C : Cond (World N) (Pc N) (Input N)} {tr s} (run : Runs queues C tr s) {i : ℕ} {n : N}
    {now : ℤ} {c : Claim} {rest : List Claim} {e : Env} {w : World N} {p : Pc N}
    (hpc : s.pc i = .busy n (.checker (.zadd now c rest)))
    (st : step queues i s.shared (s.pc i) (.go e) = some (w, p)) :
    ∃ pr, OriginalPriority queues tr c.jobId pr ∧
      ∀ l, Redis.Lists ((s.shared.store.zsets ((queues n).pending.key c.partition)).erase c.jobId) l →
        Redis.Lists (w.store.zsets ((queues n).pending.key c.partition))
          (Redis.intoPlace (c.jobId, pr.score) l) := by
  refine ⟨c.priority, (ranked_run run).threads hpc c List.mem_cons_self, fun l h => ?_⟩
  rw [hpc] at st
  obtain ⟨rfl, -⟩ := step_go st
  have added : ((Op.checker (.zadd now c rest)).code (queues n) e).cmd =
    .zadd ((queues n).pending.key c.partition) c.jobId c.priority.score := rfl
  simp only [added, Redis.effect_zadd, Function.update_self]
  exact h.insert text_injective

end ArchipelagoXL.Wq
