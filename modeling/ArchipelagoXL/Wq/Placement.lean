import ArchipelagoXL.Wq.Flow

/-!
# Where jobs are kept

`Placed` is the invariant that a job is only ever kept where the call that enqueued it put it: in the
pending set of its own partition and in the claims of its own queue, also while an operation has it in
a local variable. It holds along every run of a coherent family of queues, with failures and crashes
anywhere (`placed_run`). A family is coherent when a pending set tells the queue's other keys apart,
which follows from how `build` names the keys.
-/

namespace ArchipelagoXL.Wq

open Redis (Instr Cmd Store)
open Interleave

variable {N : Type} {queues : N → WorkQueue}

/-- Queues with a pending set in common have their claims in common, and the other way around. -/
structure Coherent (queues : N → WorkQueue) : Prop where
  ofKey : ∀ {n n' p p'}, (queues n).pending.key p = (queues n').pending.key p' →
    p = p' ∧ (queues n).claimsKey = (queues n').claimsKey
  ofClaims : ∀ {n n'}, (queues n).claimsKey = (queues n').claimsKey →
    ∀ p, (queues n).pending.key p = (queues n').pending.key p

/-- Queues made by `build` are coherent if different names of theirs hold no colon. -/
theorem coherent_of_built {name : N → String} (built : ∀ n, Built (queues n) (name n))
    (sep : ∀ n n', name n = name n' ∨ (':' ∉ (name n).toList ∧ ':' ∉ (name n').toList)) :
    Coherent queues where
  ofKey {n n' p p'} e := by
    have same : name n = name n' := by
      rcases sep n n' with h | ⟨h, h'⟩
      · exact h
      · exact (built n).name_of_key (built n') h h' e
    have built' : Built (queues n') (name n) := same ▸ built n'
    refine ⟨?_, (built n).claims_eq built'⟩
    rw [built'.key_eq (built n)] at e
    exact (built n).key_inj e
  ofClaims {n n'} e p := by
    have same := (built n).name_of_claims (built n') e
    exact (built n).key_eq (same ▸ built n') p

/-- One queue is coherent with itself. -/
lemma coherent_one {b : WorkQueueBuilder} {q : WorkQueue} (e : b.build = .ok q) :
    Coherent fun _ : Unit => q :=
  @coherent_of_built Unit (fun _ => q) (fun _ => b.queueName)
    (fun _ => WorkQueueBuilder.build_built e) (fun _ _ => .inl rfl)

/-- The job was enqueued in partition `p` of queue `n`, or of one with the same keys. -/
def World.owned (queues : N → WorkQueue) (w : World N) (n : N) (j : JobId) (p : Option String) : Prop :=
  ∃ n', w.issued.lookup j = some (n', p) ∧ (queues n').claimsKey = (queues n).claimsKey

/-- What an operation has in its local variables is where it belongs. -/
def Op.placed (queues : N → WorkQueue) (w : World N) (n : N) : Op → Prop
  | .enqueue p => w.issued.lookup p.job.jobId = some (n, p.job.desc.partition)
  | .claim p => ∀ j, p.inHand = some j → w.owned queues n j p.claimer.partition
  | .reclaim (.hset j c) => c.jobId = j ∧ w.owned queues n j c.partition
  | .checker p => ∀ c ∈ p.claims, w.owned queues n c.jobId c.partition
  | _ => True

/-- Every job is where the call that enqueued it put it. -/
structure Placed (queues : N → WorkQueue) (s : Conf (World N) (Pc N)) : Prop where
  pending : ∀ {k j}, j ∈ s.shared.store.zsets k →
    ∃ n p, s.shared.issued.lookup j = some (n, p) ∧ k = (queues n).pending.key p
  claims : ∀ {k j c}, (s.shared.store.hashes k).lookup j = some c →
    ∃ n, s.shared.issued.lookup j = some (n, c.partition) ∧ k = (queues n).claimsKey ∧ c.jobId = j
  threads : ∀ {i n o}, s.pc i = .busy n o → o.placed queues s.shared n

lemma placed_initial : Placed queues Conf.initial where
  pending h := absurd h (AList.notMem_empty _)
  claims h := by cases h
  threads h := by cases h

/-- A job can only be pending in the set it was enqueued in. -/
lemma Placed.key_of_pending {s : Conf (World N) (Pc N)} (inv : Placed queues s) {j : JobId} {n : N}
    {p : Option String} (hl : s.shared.issued.lookup j = some (n, p)) {k : String}
    (h : j ∈ s.shared.store.zsets k) : k = (queues n).pending.key p := by
  obtain ⟨n', p', hl', hk⟩ := inv.pending h
  rw [hl] at hl'
  cases hl'
  exact hk

/-! ## Ids are given out once -/

/-- An id that was given out stays with the call it was given to. -/
lemma World.issue_lookup {w : World N} {n : N} {c : Call} {e : Env} {j : JobId}
    {v : N × Option String} (poss : c.possible (queues n) w e = true)
    (h : w.issued.lookup j = some v) :
    (w.issue n (c.begin (queues n) e)).issued.lookup j = some v := by
  cases c with
  | enqueueJobIn part params prio dl =>
    simp only [Call.begin]
    split
    · exact h
    · have fresh : e.fresh ∉ w.issued := by
        simp only [Call.possible, Bool.and_eq_true, decide_eq_true_eq] at poss
        exact poss.1
      have ne : j ≠ e.fresh := by
        rintro rfl
        rw [AList.lookup_eq_none.2 fresh] at h
        cases h
      simpa [World.issue, AList.lookup_insert_ne ne] using h
  | claimJobIn part wk =>
    simp only [Call.begin]
    split <;> exact h
  | resolveJob wk j' s r =>
    simp only [Call.begin]
    split <;> exact h
  | _ => exact h

/-- A step never takes an id back. -/
lemma step_issued {i : ℕ} {w w' : World N} {p p' : Pc N} {x : Input N} {j : JobId}
    {v : N × Option String} (st : step queues i w p x = some (w', p'))
    (h : w.issued.lookup j = some v) : w'.issued.lookup j = some v := by
  rcases step_cases st with ⟨q, c, e, rfl, rfl, poss, rfl, eq⟩ | ⟨q, o, e, rfl, rfl, rfl, eq⟩ |
    ⟨q, o, rfl, rfl, rfl, eq⟩ | ⟨q, o, rfl, rfl, rfl, eq⟩ | ⟨key, rfl, rfl, mem, rfl, eq⟩
  · exact World.issue_lookup poss h
  · exact h
  · exact h
  · exact h
  · exact h

lemma World.owned.mono {w w' : World N} {n : N} {j : JobId} {p : Option String}
    (keep : ∀ {j v}, w.issued.lookup j = some v → w'.issued.lookup j = some v)
    (h : w.owned queues n j p) : w'.owned queues n j p := by
  obtain ⟨n', h, e⟩ := h
  exact ⟨n', keep h, e⟩

lemma Op.placed.mono {w w' : World N} {n : N} {o : Op}
    (keep : ∀ {j v}, w.issued.lookup j = some v → w'.issued.lookup j = some v)
    (h : o.placed queues w n) : o.placed queues w' n := by
  cases o with
  | enqueue p => exact keep h
  | claim p =>
    intro j hj
    exact (h j hj).mono keep
  | reclaim p =>
    cases p with
    | hget j wk => trivial
    | hset j c => exact ⟨h.1, h.2.mono keep⟩
  | checker p =>
    intro c hc
    exact (h c hc).mono keep
  | _ => trivial

/-! ## One step -/

/-- What a call has in its local variables at its first command. -/
lemma placed_begin {w : World N} {n : N} {c : Call} {e : Env} {o : Op}
    (hb : c.Begins (queues n) e o) : o.placed queues (w.issue n (.goto o)) n := by
  cases hb with
  | enqueue h => simp [Op.placed, EnqueuePc.job, World.issue]
  | claim h =>
    intro j hj
    cases hj
  | checker =>
    intro c hc
    cases hc
  | _ => trivial

/-- A step of an operation only brings in jobs from where they belong. -/
lemma placed_goes (co : Coherent queues) {s : Conf (World N) (Pc N)} (inv : Placed queues s)
    {i k : ℕ} {n : N} {o o' : Op} {e : Env} (hpc : s.pc k = .busy n o)
    (g : o.Goes (queues n) e i s.shared.store o') : o'.placed queues s.shared n := by
  have h := inv.threads hpc
  cases g with
  | @enqueue p p' g =>
    show s.shared.issued.lookup p'.job.jobId = some (n, p'.job.desc.partition)
    rw [EnqueuePc.job_goto g]
    exact h
  | claim g =>
    intro j hj
    rw [ClaimPc.claimer_goto g]
    rcases ClaimPc.inHand_goto g hj with hj | ⟨a, r, m, rfl, hf⟩
    · exact h j hj
    · -- the popped job was in the claimer's own pending set
      obtain ⟨n', p, hl, hk⟩ := inv.pending (Redis.first_mem_key hf)
      obtain ⟨rfl, hc⟩ := co.ofKey hk
      exact ⟨n', hl, hc.symm⟩
  | @reclaim p p' g =>
    cases p' with
    | hget j wk => trivial
    | hset j c =>
      obtain ⟨wk, c₀, rfl, hc, rfl⟩ := ReclaimPc.goto_hset g
      obtain ⟨n', hl, hk, rfl⟩ := inv.claims hc
      exact ⟨rfl, n', hl, hk.symm⟩
  | checker g =>
    intro c hc
    rcases CheckerPc.goto_claims g with ⟨rfl, rfl⟩ | ⟨sub, -⟩
    · -- the snapshot: every claim is stored under its own job
      obtain ⟨⟨j, c'⟩, mem, rfl⟩ := List.mem_map.1 hc
      obtain ⟨n', hl, hk, rfl⟩ := inv.claims (AList.mem_lookup_iff.2 mem)
      exact ⟨n', hl, hk.symm⟩
    · exact h c (sub hc)
  | _ => trivial

/-- Every step keeps every job in its place. -/
theorem placed_step (co : Coherent queues) {s : Conf (World N) (Pc N)} (inv : Placed queues s)
    {i : ℕ} {x : Input N} {w : World N} {p : Pc N}
    (st : step queues i s.shared (s.pc i) x = some (w, p)) : Placed queues (s.move i w p) where
  pending {k j} h := by
    rcases step_zset_gain st h with h | ⟨n, a, e, hpc, rfl, rfl, rfl⟩ |
      ⟨n, now, c, rest, e, hpc, rfl, rfl, rfl⟩
    · obtain ⟨n, p, hl, hk⟩ := inv.pending h
      exact ⟨n, p, step_issued st hl, hk⟩
    · exact ⟨n, _, step_issued st (inv.threads hpc), rfl⟩
    · obtain ⟨n', hl, hc⟩ := inv.threads hpc c List.mem_cons_self
      exact ⟨n', _, step_issued st hl, (co.ofClaims hc _).symm⟩
  claims {k j c} h := by
    rcases step_hash_gain st h with h | ⟨n, a, priority, params, e, hpc, rfl, rfl, rfl⟩ |
      ⟨n, e, hpc, rfl, rfl⟩
    · obtain ⟨n, hl, hk, hj⟩ := inv.claims h
      exact ⟨n, step_issued st hl, hk, hj⟩
    · obtain ⟨n', hl, hc⟩ := inv.threads hpc j rfl
      exact ⟨n', step_issued st hl, hc.symm, rfl⟩
    · obtain ⟨hj, n', hl, hc⟩ := inv.threads hpc
      exact ⟨n', step_issued st hl, hc.symm, hj⟩
  threads {k n o} h := by
    by_cases e : k = i
    · subst e
      simp only [Conf.move_pc_self] at h
      subst h
      rcases step_busy st with ⟨c, e, hpc, rfl, poss, hb, rfl⟩ | ⟨o', e, hpc, rfl, g, rfl⟩ |
        ⟨c, c', hpc, rfl, hf, rfl, rfl⟩
      · exact placed_begin hb
      · exact (placed_goes co inv hpc g).mono (fun h => h)
      · intro c₁ hc₁
        exact inv.threads hpc c₁ ((CheckerPc.fail_claims hf).1 hc₁)
    · rw [Conf.move_pc_of_ne e] at h
      exact (inv.threads h).mono (step_issued st)

/-- Along every run every job is where the call that enqueued it put it. -/
theorem placed_run (co : Coherent queues) {C : Cond (World N) (Pc N) (Input N)} {tr s}
    (run : Runs queues C tr s) : Placed queues s :=
  Run.invariant (I := fun _ s => Placed queues s) placed_initial
    (fun inv _ st => placed_step co inv st) run

/-! ## Descriptions and results -/

/-- A stored description names the partition the job was enqueued in. -/
lemma described_run {q : WorkQueue} {name : String} (built : Built q name)
    {C : Cond (World Unit) (Pc Unit) (Input Unit)} {tr s} (co : Coherent fun _ : Unit => q)
    (run : Runs (fun _ : Unit => q) C tr s) {j : JobId} {v : Val}
    (h : s.shared.store.strs.lookup (q.getJobKey j) = some v) :
    ∃ d, v = .desc d ∧ s.shared.issued.lookup j = some ((), d.partition) := by
  induction run with
  | nil => cases h
  | @cons tr s i x w p run _ st ih =>
    rcases step_strs_gain st h with h | ⟨n, a, e, hpc, rfl, hk, rfl⟩ |
      ⟨n, a, final, cleanup, e, hpc, rfl, hk, rfl⟩ | ⟨n, a, final, cleanup, e, hpc, rfl, hk, rfl⟩
    · obtain ⟨d, rfl, hl⟩ := ih h
      exact ⟨d, rfl, step_issued st hl⟩
    · obtain rfl := built.jobKey_inj hk
      exact ⟨a.desc, rfl, step_issued st ((placed_run co run).threads hpc)⟩
    · exact absurd hk (built.jobKey_ne_resultKey _ _)
    · exact absurd hk (built.jobKey_ne_resolvedKey _ _)

/-- A resolve that has found a claim is about a job that was given out. -/
lemma resolving_issued (co : Coherent queues) {C : Cond (World N) (Pc N) (Input N)} {tr s}
    (run : Runs queues C tr s) {i : ℕ} {n : N} {p : ResolvePc} (hpc : s.pc i = .busy n (.resolve p))
    (hr : p.rank ≠ 0) : ∃ v, s.shared.issued.lookup p.call.jobId = some v := by
  induction run generalizing i p with
  | nil => cases hpc
  | @cons tr s k x w pc run _ st ih =>
    rcases s.move_pc k w pc i with ⟨rfl, moved⟩ | ⟨-, moved⟩ <;> rw [moved] at hpc
    · subst hpc
      rcases step_busy st with ⟨c, e, hpc, rfl, poss, hb, rfl⟩ | ⟨o, e, hpc, rfl, g, rfl⟩ |
        ⟨c, c', hpc, rfl, hf, eq, rfl⟩
      · cases hb
        exact absurd rfl hr
      · cases g with
        | @resolve p₀ p' g =>
          rw [ResolvePc.call_goto g]
          cases p₀ with
          | hget a =>
            obtain ⟨c, hc⟩ := ResolvePc.hget_goto g
            obtain ⟨n', hl, -⟩ := (placed_run co run).claims hc
            exact ⟨_, hl⟩
          | _ => exact ih hpc (by simp [ResolvePc.rank])
      · cases eq
    · obtain ⟨v, hl⟩ := ih hpc hr
      exact ⟨v, step_issued st hl⟩

/-- A stored result is one of a job that was given out. -/
lemma resulted_run {q : WorkQueue} {name : String} (built : Built q name)
    {C : Cond (World Unit) (Pc Unit) (Input Unit)} {tr s} (co : Coherent fun _ : Unit => q)
    (run : Runs (fun _ : Unit => q) C tr s) {j : JobId} {v : Val}
    (h : s.shared.store.strs.lookup (q.getResultKey j) = some v) :
    ∃ u, s.shared.issued.lookup j = some u := by
  induction run with
  | nil => cases h
  | @cons tr s i x w p run _ st ih =>
    rcases step_strs_gain st h with h | ⟨n, a, e, hpc, rfl, hk, rfl⟩ |
      ⟨n, a, final, cleanup, e, hpc, rfl, hk, rfl⟩ | ⟨n, a, final, cleanup, e, hpc, rfl, hk, rfl⟩
    · obtain ⟨u, hl⟩ := ih h
      exact ⟨u, step_issued st hl⟩
    · exact absurd hk.symm (built.jobKey_ne_resultKey _ _)
    · obtain rfl := built.resultKey_inj hk
      obtain ⟨u, hl⟩ := resolving_issued co run hpc (by simp [ResolvePc.rank])
      exact ⟨u, step_issued st hl⟩
    · exact absurd hk (built.resultKey_ne_resolvedKey _ _)

end ArchipelagoXL.Wq
