import ArchipelagoXL.Wq.Placement

/-!
# New jobs and dead jobs

An id is given to one `enqueue_job_in` call, so as long as that call has not put the job into its
pending set, nobody else can know of the job (`Fresh`). From there on a job that is in no pending set,
in no claims and in no claimer's hand stays that way, unless the checker puts back a claim it read
before or `reclaim_job` stores a claim it read before (`dead_step`).
-/

namespace ArchipelagoXL.Wq

open Redis (Instr Cmd Store)
open Interleave

variable {N : Type} {queues : N → WorkQueue}

/-- The operation has the job in a local variable that it read from the store. -/
inductive Op.Mentions (j : JobId) : Op → Prop where
  | hand {p} : p.inHand = some j → Mentions j (.claim p)
  | refresh {c} : Mentions j (.reclaim (.hset j c))
  | snapshot {p c} : c ∈ p.claims → c.jobId = j → Mentions j (.checker p)

/-- The job is in the store or in some operation's local variables. -/
inductive Seen (s : Conf (World N) (Pc N)) (j : JobId) : Prop where
  | pending {k} : j ∈ s.shared.store.zsets k → Seen s j
  | claimed {k c} : (s.shared.store.hashes k).lookup j = some c → Seen s j
  | thread {i n o} : s.pc i = .busy n o → o.Mentions j → Seen s j

/-- The thread is enqueuing the job and has not put it into its pending set yet. -/
def Pc.enqueues (p : Pc N) (j : JobId) : Prop :=
  ∃ n o, p = .busy n (.enqueue o) ∧ o.early = true ∧ o.job.jobId = j

/-- What is in the store or in a local variable was given out. -/
lemma Placed.issued {s : Conf (World N) (Pc N)} (inv : Placed queues s) {j : JobId} (h : Seen s j) :
    j ∈ s.shared.issued := by
  cases h with
  | pending h =>
    obtain ⟨n, p, hl, -⟩ := inv.pending h
    exact AList.lookup_isSome.1 (by simp [hl])
  | claimed h =>
    obtain ⟨n, hl, -⟩ := inv.claims h
    exact AList.lookup_isSome.1 (by simp [hl])
  | thread hpc m =>
    have h := inv.threads hpc
    cases m with
    | hand hj =>
      obtain ⟨n, hl, -⟩ := h j hj
      exact AList.lookup_isSome.1 (by simp [hl])
    | refresh =>
      obtain ⟨-, n, hl, -⟩ := h
      exact AList.lookup_isSome.1 (by simp [hl])
    | snapshot hc e =>
      subst e
      obtain ⟨n, hl, -⟩ := h _ hc
      exact AList.lookup_isSome.1 (by simp [hl])

lemma Placed.enqueues_issued {s : Conf (World N) (Pc N)} (inv : Placed queues s) {i : ℕ} {j : JobId}
    (h : (s.pc i).enqueues j) : j ∈ s.shared.issued := by
  obtain ⟨n, o, hpc, -, rfl⟩ := h
  have hl : s.shared.issued.lookup o.job.jobId = some _ := inv.threads hpc
  exact AList.lookup_isSome.1 (by simp [hl])

/-- What a call mentions at its first command: nothing. -/
lemma Call.Begins.mentions {q : WorkQueue} {e : Env} {c : Call} {o : Op} {j : JobId}
    (hb : c.Begins q e o) (m : o.Mentions j) : False := by
  cases hb with
  | claim h =>
    cases m with
    | hand h => cases h
  | checker =>
    cases m with
    | snapshot hc => cases hc
  | _ => cases m

/-- A job that is seen after a step was seen before, or is put into its pending set by this step. -/
lemma seen_step {s : Conf (World N) (Pc N)} (inv : Placed queues s) {i : ℕ} {x : Input N}
    {w : World N} {p : Pc N} (st : step queues i s.shared (s.pc i) x = some (w, p)) {j : JobId}
    (h : Seen (s.move i w p) j) :
    Seen s j ∨ ∃ n a e, s.pc i = .busy n (.enqueue (.zadd a)) ∧ x = .go e ∧ a.jobId = j := by
  cases h with
  | pending h =>
    rcases step_zset_gain st h with h | ⟨n, a, e, hpc, rfl, -, rfl⟩ |
      ⟨n, now, c, rest, e, hpc, rfl, -, rfl⟩
    · exact .inl (.pending h)
    · exact .inr ⟨n, a, e, hpc, rfl, rfl⟩
    · exact .inl (.thread hpc (.snapshot (p := .zadd now c rest) List.mem_cons_self rfl))
  | claimed h =>
    rcases step_hash_gain st h with h | ⟨n, a, priority, params, e, hpc, rfl, -, -⟩ |
      ⟨n, e, hpc, rfl, -⟩
    · exact .inl (.claimed h)
    · exact .inl (.thread hpc (.hand rfl))
    · exact .inl (.thread hpc .refresh)
  | @thread k n o hpc m =>
    refine .inl ?_
    rcases s.move_pc i w p k with ⟨rfl, e⟩ | ⟨-, e⟩ <;> rw [e] at hpc
    · subst hpc
      rcases step_busy st with ⟨c, e, hpc, rfl, poss, hb, rfl⟩ | ⟨o', e, hpc, rfl, g, rfl⟩ |
        ⟨c, c', hpc, rfl, hf, rfl, rfl⟩
      · exact (Call.Begins.mentions hb m).elim
      · cases m with
        | hand hj =>
          cases g with
          | claim g =>
            rcases ClaimPc.inHand_goto g hj with hj | ⟨a, r, m, rfl, hf⟩
            · exact .thread hpc (.hand hj)
            · exact .pending (Redis.first_mem_key hf)
        | refresh =>
          cases g with
          | reclaim g =>
            obtain ⟨wk, c₀, rfl, hc, rfl⟩ := ReclaimPc.goto_hset g
            exact .claimed hc
        | snapshot hc ej =>
          cases g with
          | checker g =>
            rcases CheckerPc.goto_claims g with ⟨rfl, rfl⟩ | ⟨sub, -⟩
            · obtain ⟨⟨j', c'⟩, mem, rfl⟩ := List.mem_map.1 hc
              have hl := AList.mem_lookup_iff.2 mem
              obtain ⟨n', -, -, e'⟩ := inv.claims hl
              subst ej
              rw [← e'] at hl
              exact .claimed hl
            · exact .thread hpc (.snapshot (sub hc) ej)
      · cases m with
        | snapshot hc ej =>
          exact .thread hpc (.snapshot ((CheckerPc.fail_claims hf).1 hc) ej)
    · exact .thread hpc m

/-- How a thread comes to be enqueuing a job. -/
lemma enqueues_step {i : ℕ} {w w' : World N} {p p' : Pc N} {x : Input N} {j : JobId}
    (st : step queues i w p x = some (w', p')) (h : p'.enqueues j) :
    (p = .idle ∧ j ∉ w.issued) ∨
    (p.enqueues j ∧ ∀ n a, p ≠ .busy n (.enqueue (.zadd a))) := by
  obtain ⟨n, o, rfl, early, rfl⟩ := h
  rcases step_busy st with ⟨c, e, rfl, rfl, poss, hb, rfl⟩ | ⟨o', e, rfl, rfl, g, rfl⟩ |
    ⟨c, c', rfl, rfl, hf, eq, rfl⟩
  · cases hb with
    | enqueue h =>
      simp only [Call.possible, Bool.and_eq_true, decide_eq_true_eq] at poss
      exact .inl ⟨rfl, poss.1⟩
  · cases g with
    | @enqueue p p' g =>
      refine .inr ⟨⟨n, p, rfl, EnqueuePc.early_goto g, by rw [EnqueuePc.job_goto g]⟩, ?_⟩
      rintro n a ⟨rfl, rfl⟩
      cases g
      cases early
  · cases eq

/-- Nobody but the one call that enqueues a job knows of it before it is in its pending set. -/
structure Fresh (s : Conf (World N) (Pc N)) : Prop where
  unseen : ∀ {i j}, (s.pc i).enqueues j → ¬ Seen s j
  unique : ∀ {i k j}, (s.pc i).enqueues j → (s.pc k).enqueues j → i = k

lemma fresh_step {s : Conf (World N) (Pc N)} (inv : Placed queues s) (fr : Fresh s) {i : ℕ}
    {x : Input N} {w : World N} {p : Pc N}
    (st : step queues i s.shared (s.pc i) x = some (w, p)) : Fresh (s.move i w p) where
  unseen {k j} h seen := by
    rcases s.move_pc i w p k with ⟨rfl, e⟩ | ⟨ne, e⟩ <;> rw [e] at h
    · rcases enqueues_step st h with ⟨idle, new⟩ | ⟨h, nz⟩
      · rcases seen_step inv st seen with seen | ⟨n, a, e, hpc, -⟩
        · exact new (inv.issued seen)
        · rw [idle] at hpc
          cases hpc
      · rcases seen_step inv st seen with seen | ⟨n, a, e, hpc, -⟩
        · exact fr.unseen h seen
        · exact nz n a hpc
    · rcases seen_step inv st seen with seen | ⟨n, a, e, hpc, -, rfl⟩
      · exact fr.unseen h seen
      · exact ne (fr.unique h ⟨n, _, hpc, rfl, rfl⟩)
  unique {k l j} hk hl := by
    rcases s.move_pc i w p k with ⟨rfl, e⟩ | ⟨nk, e⟩ <;> rw [e] at hk
    · rcases s.move_pc k w p l with ⟨rfl, -⟩ | ⟨nl, e⟩
      · rfl
      · rw [e] at hl
        rcases enqueues_step st hk with ⟨-, new⟩ | ⟨hk, -⟩
        · exact absurd (inv.enqueues_issued hl) new
        · exact fr.unique hk hl
    · rcases s.move_pc i w p l with ⟨rfl, e⟩ | ⟨nl, e⟩ <;> rw [e] at hl
      · rcases enqueues_step st hl with ⟨-, new⟩ | ⟨hl, -⟩
        · exact absurd (inv.enqueues_issued hk) new
        · exact fr.unique hk hl
      · exact fr.unique hk hl

theorem fresh_run (co : Coherent queues) {C : Cond (World N) (Pc N) (Input N)} {tr s}
    (run : Runs queues C tr s) : Fresh s := by
  induction run with
  | nil =>
    refine ⟨?_, ?_⟩
    · rintro i j ⟨n, o, hpc, -⟩
      cases hpc
    · rintro i k j ⟨n, o, hpc, -⟩
      cases hpc
  | cons run _ st ih => exact fresh_step (placed_run co run) ih st

/-! ## Known jobs -/

/-- The job was given out and is past its `enqueue_job_in`, as far as the pending set goes. -/
structure Known (s : Conf (World N) (Pc N)) (j : JobId) : Prop where
  issued : j ∈ s.shared.issued
  enqueued : ∀ i, ¬ (s.pc i).enqueues j

lemma Fresh.known {s : Conf (World N) (Pc N)} (fr : Fresh s) (inv : Placed queues s) {j : JobId}
    (seen : Seen s j) : Known s j :=
  ⟨inv.issued seen, fun _ h => fr.unseen h seen⟩

lemma step_issued_mem {i : ℕ} {w w' : World N} {p p' : Pc N} {x : Input N} {j : JobId}
    (st : step queues i w p x = some (w', p')) (h : j ∈ w.issued) : j ∈ w'.issued := by
  obtain ⟨v, hv⟩ := Option.isSome_iff_exists.1 (AList.lookup_isSome.2 h)
  exact AList.lookup_isSome.1 (by simp [step_issued st hv])

/-- A job that is known is not enqueued again. -/
lemma Known.keep {s : Conf (World N) (Pc N)} {j : JobId} (kn : Known s j) {i : ℕ} {x : Input N}
    {w : World N} {p : Pc N} (st : step queues i s.shared (s.pc i) x = some (w, p)) :
    Known (s.move i w p) j where
  issued := step_issued_mem st kn.issued
  enqueued k h := by
    rcases s.move_pc i w p k with ⟨rfl, e⟩ | ⟨-, e⟩ <;> rw [e] at h
    · rcases enqueues_step st h with ⟨-, new⟩ | ⟨h, -⟩
      · exact new kn.issued
      · exact kn.enqueued _ h
    · exact kn.enqueued _ h

/-- A known job is put into a pending set by the checker only. -/
lemma Known.zset_gain {s : Conf (World N) (Pc N)} {j : JobId} (kn : Known s j) {i : ℕ} {x : Input N}
    {w : World N} {p : Pc N} (st : step queues i s.shared (s.pc i) x = some (w, p)) {k : String}
    (h : j ∈ w.store.zsets k) :
    j ∈ s.shared.store.zsets k ∨
    ∃ n now c rest e, s.pc i = .busy n (.checker (.zadd now c rest)) ∧ x = .go e ∧
      k = (queues n).pending.key c.partition ∧ j = c.jobId := by
  rcases step_zset_gain st h with h | ⟨n, a, e, hpc, rfl, -, rfl⟩ | h
  · exact .inl h
  · exact absurd ⟨n, _, hpc, rfl, rfl⟩ (kn.enqueued i)
  · exact .inr h

/-! ## Dead jobs -/

/-- The job was enqueued, and it is in no pending set, in no claims and in nobody's hand. -/
structure Dead (s : Conf (World N) (Pc N)) (j : JobId) : Prop where
  known : Known s j
  pending : ∀ k, j ∉ s.shared.store.zsets k
  claims : ∀ k, (s.shared.store.hashes k).lookup j = none
  hand : ∀ i, ¬ (s.pc i).holds j

/-- A dead job stays dead, unless a claim that was read before is put back or stored again. -/
theorem dead_step {s : Conf (World N) (Pc N)} {j : JobId} (dead : Dead s j) {i : ℕ} {x : Input N}
    {w : World N} {p : Pc N} (st : step queues i s.shared (s.pc i) x = some (w, p))
    (noZadd : ∀ n now c rest e, s.pc i = .busy n (.checker (.zadd now c rest)) → x = .go e →
      c.jobId ≠ j)
    (noHset : ∀ n c e, s.pc i = .busy n (.reclaim (.hset j c)) → x ≠ .go e) :
    Dead (s.move i w p) j where
  known := dead.known.keep st
  pending k h := by
    rcases dead.known.zset_gain st h with h | ⟨n, now, c, rest, e, hpc, rfl, -, rfl⟩
    · exact dead.pending k h
    · exact noZadd n now c rest e hpc rfl rfl
  claims k := by
    cases hc : (w.store.hashes k).lookup j with
    | none => exact hc
    | some c =>
      rcases step_hash_gain st hc with h | ⟨n, a, priority, params, e, hpc, rfl, -, -⟩ |
        ⟨n, e, hpc, rfl, -⟩
      · rw [dead.claims k] at h
        cases h
      · exact absurd ⟨n, _, hpc, _, rfl, rfl⟩ (dead.hand i)
      · exact absurd rfl (noHset n c e hpc)
  hand k h := by
    rcases s.move_pc i w p k with ⟨rfl, e⟩ | ⟨-, e⟩ <;> rw [e] at h
    · rcases step_holds st h with h | ⟨n, a, r, e, m, hpc, rfl, hf⟩
      · exact dead.hand _ h
      · exact dead.pending _ (Redis.first_mem_key hf)
    · exact dead.hand _ h

end ArchipelagoXL.Wq
