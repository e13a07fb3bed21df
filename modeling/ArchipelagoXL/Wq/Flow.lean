import ArchipelagoXL.Wq.Machine

/-!
# Program points and their predecessors

For every program point whose local data an invariant speaks of, the points it is reached from and
what the reply that leads to it says about the store. `Op.holds` is the moment between the pop and the
claim of `claim_job_in`, in which a job is in no place of the store.
-/

namespace ArchipelagoXL.Wq

open Redis (Instr Cmd Store)

variable {q : WorkQueue} {e : Env} {i : ℕ} {st : Store JobId Val Claim}

/-! ## `cancel_job` -/

/-- The job a cancellation is about. -/
def CancelPc.job : CancelPc → JobId
  | .get j | .zrem j _ | .del j | .hdel j => j

lemma CancelPc.job_goto {p p' : CancelPc} (h : (p.code q).outcome i st = .goto p') :
    p'.job = p.job := by
  cases p <;> cases h <;> rfl

lemma CancelPc.goto_zrem {p : CancelPc} {j : JobId} {part : Option String}
    (h : (p.code q).outcome i st = .goto (.zrem j part)) :
    p = .get j ∧ part = readPartition (st.strs.lookup (q.getJobKey j)) := by
  cases p <;> cases h
  exact ⟨rfl, rfl⟩

lemma CancelPc.goto_del {p : CancelPc} {j : JobId} (h : (p.code q).outcome i st = .goto (.del j)) :
    ∃ part, p = .zrem j part := by
  cases p <;> cases h
  exact ⟨_, rfl⟩

lemma CancelPc.goto_hdel {p : CancelPc} {j : JobId} (h : (p.code q).outcome i st = .goto (.hdel j)) :
    p = .del j := by
  cases p <;> cases h
  rfl

/-! ## `enqueue_job_in` -/

/-- The job an enqueue makes. -/
def EnqueuePc.job : EnqueuePc → Enqueued
  | .set a | .sadd a _ | .zadd a | .publish a => a

/-- The job is not in its pending set yet. -/
def EnqueuePc.early : EnqueuePc → Bool
  | .set _ | .sadd _ _ | .zadd _ => true
  | .publish _ => false

lemma EnqueuePc.job_goto {p p' : EnqueuePc} (h : (p.code q).outcome i st = .goto p') :
    p'.job = p.job := by
  cases p with
  | set a =>
    simp only [code, Instr.outcome] at h
    split at h <;> cases h <;> rfl
  | _ => cases h <;> rfl

lemma EnqueuePc.early_goto {p p' : EnqueuePc} (h : (p.code q).outcome i st = .goto p') :
    p.early = true := by
  cases p with
  | publish a => cases h
  | _ => rfl

/-! ## `claim_job_in` -/

/-- Who claims. -/
def ClaimPc.claimer : ClaimPc → Claimer
  | .subscribe a | .zpopmin a _ | .get a _ _ _ | .cancel a _ _ | .recv a _ | .hset a _ _ _ => a

/-- The job a claimer has popped and not claimed yet. -/
def ClaimPc.inHand : ClaimPc → Option JobId
  | .get _ _ j _ | .hset _ j _ _ => some j
  | _ => none

lemma ClaimPc.claimer_goto {p p' : ClaimPc} (h : (p.code q e).outcome i st = .goto p') :
    p'.claimer = p.claimer := by
  cases p with
  | zpopmin a r =>
    simp only [code, Instr.outcome] at h
    split at h
    · cases h
      rfl
    · split at h <;> cases h
      rfl
  | get a r j priority =>
    simp only [code, Instr.outcome] at h
    split at h
    · cases h
    · split at h <;> cases h <;> rfl
  | cancel a r c =>
    simp only [code, Instr.map_outcome] at h
    split at h <;> cases h <;> rfl
  | recv a r =>
    simp only [code, Instr.outcome] at h
    split at h <;> split at h <;> cases h <;> rfl
  | _ => cases h <;> rfl

/-- A job gets into a claimer's hand by being popped. -/
lemma ClaimPc.inHand_goto {p p' : ClaimPc} {j : JobId} (h : (p.code q e).outcome i st = .goto p')
    (hj : p'.inHand = some j) :
    p.inHand = some j ∨
    ∃ a r n, p = .zpopmin a r ∧ Redis.first (st.zsets (q.pending.key a.partition)) = some (j, n) := by
  cases p with
  | subscribe a =>
    cases h
    cases hj
  | zpopmin a r =>
    simp only [code, Instr.outcome, Cmd.reply] at h
    split at h
    · cases h
      cases hj
    · rename_i j' n hf
      split at h <;> cases h
      cases hj
      exact .inr ⟨a, r, n, rfl, hf⟩
  | get a r j' priority =>
    simp only [code, Instr.outcome] at h
    split at h
    · cases h
    · split at h <;> cases h
      · cases hj
      · exact .inl hj
  | cancel a r c =>
    simp only [code, Instr.map_outcome] at h
    split at h <;> cases h <;> cases hj
  | recv a r =>
    simp only [code, Instr.outcome] at h
    split at h <;> split at h <;> cases h <;> cases hj
  | hset a j' priority params => cases h

/-- A job in hand stays there, is cancelled because its deadline is over, or is given back to nobody
when its description cannot be read. -/
lemma ClaimPc.inHand_get {a : Claimer} {r : ℕ} {j : JobId} {priority : Priority} {d : JobDesc}
    (hd : q.readDesc (st.strs.lookup (q.getJobKey j)) = .ok d) :
    ((ClaimPc.get a r j priority).code q e).outcome i st =
      if d.deadline < e.now then .goto (.cancel a r (.get j))
      else .goto (.hset a j priority d.params) := by
  simp only [code, Instr.outcome, Cmd.reply, hd]

/-- An expired job is cancelled by the claimer that popped it. -/
lemma ClaimPc.goto_cancel {p : ClaimPc} {a : Claimer} {r : ℕ} {c : CancelPc}
    (h : (p.code q e).outcome i st = .goto (.cancel a r c)) :
    (∃ j priority d, p = .get a r j priority ∧ c = .get j ∧
      q.readDesc (st.strs.lookup (q.getJobKey j)) = .ok d ∧ d.deadline < e.now) ∨
    ∃ c', p = .cancel a r c' ∧ (c'.code q).outcome i st = .goto c := by
  cases p with
  | zpopmin a r =>
    simp only [code, Instr.outcome] at h
    split at h
    · cases h
    · split at h <;> cases h
  | get a' r' j priority =>
    simp only [code, Instr.outcome, Cmd.reply] at h
    split at h
    · cases h
    · rename_i d hd
      split at h
      · rename_i late
        cases h
        exact .inl ⟨j, priority, d, rfl, rfl, hd, late⟩
      · cases h
  | cancel a' r' c' =>
    simp only [code, Instr.map_outcome] at h
    split at h
    · rename_i c'' hc
      cases h
      exact .inr ⟨c', rfl, hc⟩
    · cases h
    · cases h
  | recv a r =>
    simp only [code, Instr.outcome] at h
    split at h <;> split at h <;> cases h
  | _ => cases h

/-- A claimer stores a claim after it has read the description. -/
lemma ClaimPc.goto_hset {p : ClaimPc} {a : Claimer} {j : JobId} {priority : Priority} {params : String}
    (h : (p.code q e).outcome i st = .goto (.hset a j priority params)) :
    ∃ r d, p = .get a r j priority ∧ q.readDesc (st.strs.lookup (q.getJobKey j)) = .ok d ∧
      params = d.params := by
  cases p with
  | zpopmin a r =>
    simp only [code, Instr.outcome] at h
    split at h
    · cases h
    · split at h <;> cases h
  | get a' r' j' priority' =>
    simp only [code, Instr.outcome, Cmd.reply] at h
    split at h
    · cases h
    · rename_i d hd
      split at h <;> cases h
      exact ⟨r', d, rfl, hd, rfl⟩
  | cancel a' r' c' =>
    simp only [code, Instr.map_outcome] at h
    split at h <;> cases h
  | recv a r =>
    simp only [code, Instr.outcome] at h
    split at h <;> split at h <;> cases h
  | _ => cases h

/-- A claimer returns the job it has just claimed. -/
lemma ClaimPc.ret_some {p : ClaimPc} {job : Job}
    (h : (p.code q e).outcome i st = .ret (.ok (some job))) :
    ∃ a priority params, p = .hset a job.jobId priority params := by
  cases p with
  | zpopmin a r =>
    simp only [code, Instr.outcome] at h
    split at h
    · cases h
    · split at h <;> cases h
  | get a r j priority =>
    simp only [code, Instr.outcome] at h
    split at h
    · cases h
    · split at h <;> cases h
  | cancel a r c =>
    simp only [code, Instr.map_outcome] at h
    split at h <;> cases h
  | recv a r =>
    simp only [code, Instr.outcome] at h
    split at h <;> split at h <;> cases h
  | hset a j priority params =>
    cases h
    exact ⟨a, priority, params, rfl⟩
  | subscribe a => cases h

/-! ## `reclaim_job` -/

/-- A refreshed claim is the one that was read, with another time. -/
lemma ReclaimPc.goto_hset {p : ReclaimPc} {j : JobId} {c : Claim}
    (h : (p.code q e).outcome i st = .goto (.hset j c)) :
    ∃ workerId c₀, p = .hget j workerId ∧ (st.hashes q.claimsKey).lookup j = some c₀ ∧
      c = { c₀ with time := e.now } := by
  cases p with
  | hget j' workerId =>
    simp only [code, Instr.outcome, Cmd.reply] at h
    split at h
    · cases h
    · rename_i c₀ hc
      split at h
      · cases h
      · rename_i c' hr
        cases h
        simp only [Claim.refresh] at hr
        split at hr <;> cases hr
        exact ⟨workerId, c₀, rfl, hc, rfl⟩
  | hset j' c' => cases h

/-! ## `resolve_job` -/

/-- The arguments of the call. -/
def ResolvePc.call : ResolvePc → Resolve
  | .hget a | .get a | .hdel a _ | .callback a _ | .set a _ _ | .setEx a _ _ | .incr a _ _
  | .publish a _ _ | .delJob a | .delResult a => a

/-- How far a resolve has got. -/
def ResolvePc.rank : ResolvePc → ℕ
  | .hget _ => 0
  | .get _ => 1
  | .hdel _ _ => 2
  | .callback _ _ => 3
  | .set _ _ _ => 4
  | .setEx _ _ _ => 5
  | .incr _ _ _ => 6
  | .publish _ _ _ => 7
  | .delJob _ => 8
  | .delResult _ => 9

lemma ResolvePc.call_goto {p p' : ResolvePc} (h : (p.code q e).outcome i st = .goto p') :
    p'.call = p.call := by
  cases p with
  | hget a =>
    simp only [code, Instr.outcome] at h
    split at h
    · cases h
    · split at h <;> cases h
      rfl
  | get a =>
    simp only [code, Instr.outcome] at h
    split at h <;> cases h
    rfl
  | hdel a d =>
    simp only [code, Instr.outcome] at h
    split at h <;> cases h <;> rfl
  | callback a d =>
    simp only [code, Instr.outcome] at h
    split at h <;> cases h <;> rfl
  | publish a final cleanup =>
    simp only [code, Instr.outcome] at h
    split at h <;> cases h
    rfl
  | _ => cases h <;> rfl

/-- A resolve only goes forward. -/
lemma ResolvePc.rank_goto {p p' : ResolvePc} (h : (p.code q e).outcome i st = .goto p') :
    p.rank < p'.rank := by
  cases p with
  | hget a =>
    simp only [code, Instr.outcome] at h
    split at h
    · cases h
    · split at h <;> cases h
      simp [rank]
  | get a =>
    simp only [code, Instr.outcome] at h
    split at h <;> cases h
    simp [rank]
  | hdel a d =>
    simp only [code, Instr.outcome] at h
    split at h <;> cases h <;> simp [rank]
  | callback a d =>
    simp only [code, Instr.outcome] at h
    split at h <;> cases h <;> simp [rank]
  | publish a final cleanup =>
    simp only [code, Instr.outcome] at h
    split at h <;> cases h
    simp [rank]
  | _ => cases h <;> simp [rank]

/-- A resolve gets past its `HGET` only if there is a claim. -/
lemma ResolvePc.hget_goto {a : Resolve} {p' : ResolvePc}
    (h : ((ResolvePc.hget a).code q e).outcome i st = .goto p') :
    ∃ c, (st.hashes q.claimsKey).lookup a.jobId = some c := by
  simp only [code, Instr.outcome, Cmd.reply] at h
  split at h
  · cases h
  · exact ⟨_, ‹_›⟩

/-- Past its `HDEL` a resolve comes from its `HDEL`. -/
lemma ResolvePc.rank_hdel {p p' : ResolvePc} (h : (p.code q e).outcome i st = .goto p')
    (hr : 2 < p'.rank) : 2 ≤ p.rank := by
  cases p with
  | hget a =>
    simp only [code, Instr.outcome] at h
    split at h
    · cases h
    · split at h <;> cases h
      simp [rank] at hr
  | get a =>
    simp only [code, Instr.outcome] at h
    split at h <;> cases h
    simp [rank] at hr
  | _ => simp [rank]

lemma ResolvePc.rank_two {p : ResolvePc} (hr : p.rank = 2) : ∃ d, p = .hdel p.call d := by
  cases p with
  | hdel a d => exact ⟨d, rfl⟩
  | _ => cases hr

/-- A resolve that succeeds is past its `HDEL`. -/
lemma ResolvePc.ret_ok {p : ResolvePc} (h : (p.code q e).outcome i st = .ret (.ok ())) :
    6 < p.rank := by
  cases p with
  | hget a =>
    simp only [code, Instr.outcome] at h
    split at h
    · cases h
    · split at h <;> cases h
  | get a =>
    simp only [code, Instr.outcome] at h
    split at h <;> cases h
  | hdel a d =>
    simp only [code, Instr.outcome] at h
    split at h <;> cases h
  | callback a d =>
    simp only [code, Instr.outcome] at h
    split at h <;> cases h
  | set a f c => cases h
  | setEx a f c => cases h
  | incr a f c => cases h
  | _ => simp [rank]

/-! ## The reclaim checker -/

/-- The claims of the snapshot a pass has not dealt with yet. -/
def CheckerPc.claims : CheckerPc → List Claim
  | .hgetall => []
  | .scan _ rest => rest
  | .zadd _ c rest | .del _ c rest | .hdel _ c rest => c :: rest
  | .publish _ _ rest => rest

/-- The time the pass compares the claims with. -/
def CheckerPc.now : CheckerPc → ℤ
  | .hgetall => 0
  | .scan now _ | .zadd now _ _ | .del now _ _ | .hdel now _ _ | .publish now _ _ => now

/-- The claim a pass has found expired and is putting back. -/
def CheckerPc.current : CheckerPc → Option Claim
  | .zadd _ c _ | .del _ c _ | .hdel _ c _ => some c
  | _ => none

/-- After its `HGETALL` a pass only works on what it read. -/
lemma CheckerPc.goto_claims {p p' : CheckerPc} (h : (p.code q e).outcome i st = .goto p') :
    (p = .hgetall ∧ p' = .scan e.now ((st.hashes q.claimsKey).entries.map (·.2))) ∨
    (p'.claims ⊆ p.claims ∧ p'.now = p.now) := by
  cases p with
  | hgetall =>
    simp only [code, Instr.outcome, Cmd.reply] at h
    split at h <;> cases h
    exact .inl ⟨rfl, rfl⟩
  | scan now rest =>
    refine .inr ?_
    simp only [code, Instr.outcome] at h
    split at h
    · cases h
    · rename_i c hc
      have mem : c ∈ rest := List.mem_of_getElem? hc
      split at h
      · cases h
        refine ⟨?_, rfl⟩
        intro d hd
        rcases List.mem_cons.1 hd with rfl | hd
        · exact mem
        · exact List.mem_of_mem_eraseIdx hd
      · cases h
        exact ⟨fun d hd => List.mem_of_mem_eraseIdx hd, rfl⟩
  | zadd now c rest =>
    cases h
    exact .inr ⟨fun d hd => hd, rfl⟩
  | del now c rest =>
    cases h
    exact .inr ⟨fun d hd => hd, rfl⟩
  | hdel now c rest =>
    cases h
    exact .inr ⟨fun d hd => List.mem_cons_of_mem c hd, rfl⟩
  | publish now c rest =>
    cases h
    exact .inr ⟨fun d hd => hd, rfl⟩

lemma CheckerPc.fail_claims {p p' : CheckerPc} (h : p.fail = .goto p') :
    p'.claims ⊆ p.claims ∧ p'.now = p.now := by
  cases p <;> cases h
  · exact ⟨fun d hd => hd, rfl⟩
  · exact ⟨fun d hd => List.mem_cons_of_mem _ hd, rfl⟩
  · exact ⟨fun d hd => List.mem_cons_of_mem _ hd, rfl⟩
  · exact ⟨fun d hd => List.mem_cons_of_mem _ hd, rfl⟩
  · exact ⟨fun d hd => hd, rfl⟩

/-- What a pass puts back, it has found expired. -/
lemma CheckerPc.goto_current {p p' : CheckerPc} {c : Claim}
    (h : (p.code q e).outcome i st = .goto p') (hc : p'.current = some c) :
    p.current = some c ∨
    (∃ now rest, p = .scan now rest ∧ c ∈ rest ∧ c.expired q.reclaimTimeout now = true) := by
  cases p with
  | hgetall =>
    simp only [code, Instr.outcome] at h
    split at h <;> cases h
    cases hc
  | scan now rest =>
    simp only [code, Instr.outcome] at h
    split at h
    · cases h
    · rename_i c' hc'
      split at h
      · rename_i ex
        cases h
        cases hc
        exact .inr ⟨now, rest, rfl, List.mem_of_getElem? hc', ex⟩
      · cases h
        cases hc
  | zadd now c' rest =>
    cases h
    exact .inl hc
  | del now c' rest =>
    cases h
    exact .inl hc
  | hdel now c' rest =>
    cases h
    cases hc
  | publish now c' rest =>
    cases h
    cases hc

/-! ## Jobs in a claimer's hand -/

/-- The operation has popped the job and has not stored a claim of it yet. -/
def Op.holds (o : Op) (j : JobId) : Prop :=
  ∃ p, o = .claim p ∧ p.inHand = some j

def Pc.holds {N : Type} (p : Pc N) (j : JobId) : Prop :=
  ∃ q o, p = .busy q o ∧ o.holds j

/-- The job in a thread's hand. -/
def Pc.inHand {N : Type} : Pc N → Option JobId
  | .busy _ (.claim p) => p.inHand
  | _ => none

lemma Pc.holds_inHand {N : Type} {p : Pc N} {j : JobId} (h : p.holds j) : p.inHand = some j := by
  obtain ⟨q, o, rfl, c, rfl, hj⟩ := h
  exact hj

/-- How a job comes into a claimer's hand. -/
theorem step_holds {N : Type} {queues : N → WorkQueue} {w w' : World N} {p p' : Pc N}
    {x : Input N} {j : JobId} (st : step queues i w p x = some (w', p')) (h : p'.holds j) :
    p.holds j ∨
    (∃ q a r e n, p = .busy q (.claim (.zpopmin a r)) ∧ x = .go e ∧
      Redis.first (w.store.zsets ((queues q).pending.key a.partition)) = some (j, n)) := by
  obtain ⟨q, o', rfl, pc', rfl, hj⟩ := h
  rcases step_busy st with ⟨c, e, rfl, rfl, poss, hb, rfl⟩ | ⟨o, e, rfl, rfl, g, rfl⟩ |
    ⟨c, c', rfl, rfl, hc, eq, rfl⟩
  · cases hb
    cases hj
  · cases g with
    | claim g =>
      rcases ClaimPc.inHand_goto g hj with hj | ⟨a, r, n, rfl, hf⟩
      · exact .inl ⟨q, _, rfl, _, rfl, hj⟩
      · exact .inr ⟨q, a, r, e, n, rfl, rfl, hf⟩
  · cases eq

/-- How a thread comes to be in the middle of a cancellation. -/
theorem step_cancels {N : Type} {queues : N → WorkQueue} {w w' : World N} {p : Pc N} {x : Input N}
    {n : N} {o' : Op} {c' : CancelPc} (st : step queues i w p x = some (w', .busy n o'))
    (h : o'.cancels c') :
    (∃ j, c' = .get j) ∨
    ∃ o c e, p = .busy n o ∧ o.cancels c ∧ x = .go e ∧
      (c.code (queues n)).outcome i w.store = .goto c' := by
  rcases step_busy st with ⟨c, e, rfl, rfl, poss, hb, rfl⟩ | ⟨o, e, rfl, rfl, g, rfl⟩ |
    ⟨c, c', rfl, rfl, hc, eq, rfl⟩
  · rcases h with rfl | ⟨a, r, rfl⟩
    · cases hb
      exact .inl ⟨_, rfl⟩
    · cases hb
  · rcases h with rfl | ⟨a, r, rfl⟩
    · cases g with
      | cancel g => exact .inr ⟨_, _, e, rfl, .inl rfl, rfl, g⟩
    · cases g with
      | claim g =>
        rcases ClaimPc.goto_cancel g with ⟨j, priority, d, rfl, rfl, -⟩ | ⟨c, rfl, gc⟩
        · exact .inl ⟨j, rfl⟩
        · exact .inr ⟨_, _, e, rfl, .inr ⟨a, r, rfl⟩, rfl, gc⟩
  · rcases h with rfl | ⟨a, r, rfl⟩
    · cases eq
    · cases eq

end ArchipelagoXL.Wq
