import ArchipelagoXL.Wq.Custody
import Mathlib.Algebra.BigOperators.Group.Finset.Basic

/-!
# What `get_stats` counts

`get_stats` reads three counters, the size of the default pending set and of one pending set for each
registered partition, and the number of claims. A partition is registered before a job of it is put into
its pending set, and never removed, so no pending job is missed (`registered_run`). A counter is counted
up by `resolve_job` once on its way to the end, under the final status; so where no operation is in
progress, and none has failed or died, it says how many calls have ended that way (`counting_run`).
-/

namespace ArchipelagoXL.Wq

open Redis (Instr Cmd Store)
open Interleave

variable {q : WorkQueue}

/-! ## Registered partitions -/

lemma step_sets {i : ℕ} {w w' : World Unit} {p p' : Pc Unit} {x : Input Unit}
    (st : step (fun _ => q) i w p x = some (w', p')) {k m : String} (h : m ∈ w.store.sets k) :
    m ∈ w'.store.sets k := by
  rcases step_store st with eq | ⟨n, o, e, rfl, rfl, eq⟩ | ⟨key, rfl, mem, eq⟩
  · rw [eq]
    exact h
  · rw [eq]
    exact Redis.mem_sets_effect h
  · rw [eq]
    exact h

/-- An enqueue that is at its `ZADD` has registered the partition, one at its `SADD` is about to. -/
def EnqueuePc.registering (sets : List String) : EnqueuePc → Prop
  | .sadd a p => a.desc.partition = some p
  | .zadd a => ∀ p, a.desc.partition = some p → p ∈ sets
  | .set _ | .publish _ => True

/-- The partitions of jobs that are anywhere in the queue are registered. -/
structure Registered (q : WorkQueue) (s : Conf (World Unit) (Pc Unit)) : Prop where
  nodup : (s.shared.store.sets q.pending.partitionsKey).Nodup
  seen : ∀ {j p}, Seen s j → s.shared.issued.lookup j = some ((), some p) →
    p ∈ s.shared.store.sets q.pending.partitionsKey
  threads : ∀ {i o}, s.pc i = .busy () (.enqueue o) →
    o.registering (s.shared.store.sets q.pending.partitionsKey)

/-- The partition is registered on the way to the pending set. -/
lemma registering_goto {i : ℕ} {st : Store JobId Val Claim} {p p' : EnqueuePc}
    (h : p.registering (st.sets q.pending.partitionsKey)) (g : (p.code q).outcome i st = .goto p') :
    p'.registering (((p.code q).cmd.effect i st).sets q.pending.partitionsKey) := by
  cases p with
  | set a =>
    simp only [EnqueuePc.code, Instr.outcome] at g
    split at g <;> cases g
    · rename_i p hp
      exact hp
    · rename_i hp
      intro p eq
      rw [hp] at eq
      cases eq
  | sadd a p =>
    cases g
    intro p' eq
    have same : a.desc.partition = some p := h
    rw [same] at eq
    cases eq
    simp [EnqueuePc.code, Cmd.effect]
  | zadd a =>
    cases g
    trivial
  | publish a => cases g

lemma registered_initial : Registered q Conf.initial where
  nodup := List.nodup_nil
  seen {j p} _ h := by cases h
  threads h := by cases h

/-- Every partition with a job is registered, along every run. -/
theorem registered_run (co : Coherent fun _ : Unit => q) {C : Cond (World Unit) (Pc Unit) (Input Unit)}
    {tr s} (run : Runs (fun _ : Unit => q) C tr s) : Registered q s := by
  induction run with
  | nil => exact registered_initial
  | @cons tr s i x w pc run _ st ih =>
    have placed := placed_run co run
    refine ⟨?_, fun {j p} seen issued => ?_, fun {k o} hpc => ?_⟩
    · rcases step_store st with eq | ⟨n, o, e, -, -, eq⟩ | ⟨key, -, -, eq⟩ <;> rw [Conf.move_shared, eq]
      · exact ih.nodup
      · exact Redis.nodup_sets_effect ih.nodup
      · exact ih.nodup
    · rcases seen_step placed st seen with before | ⟨n, a, e, hpc, -, rfl⟩
      · obtain ⟨v, hv⟩ := Option.isSome_iff_exists.1 (AList.lookup_isSome.2 (placed.issued before))
        have later := step_issued st hv
        rw [Conf.move_shared, later, Option.some.injEq] at issued
        subst issued
        exact step_sets st (ih.seen before hv)
      · have given : s.shared.issued.lookup a.jobId = some (n, a.desc.partition) := placed.threads hpc
        have later := step_issued st given
        rw [Conf.move_shared, later, Option.some.injEq, Prod.mk.injEq] at issued
        exact step_sets st (ih.threads hpc p issued.2)
    · rcases s.move_pc i w pc k with ⟨rfl, moved⟩ | ⟨-, moved⟩ <;> rw [moved] at hpc
      · subst hpc
        rcases step_busy st with ⟨c, e, -, -, -, hb, -⟩ | ⟨o', e, hpc, -, g, rfl⟩ |
          ⟨c, c', -, -, -, eq, -⟩
        · cases hb
          trivial
        · cases g with
          | enqueue g => exact registering_goto (ih.threads hpc) g
        · cases eq
      · have before := ih.threads hpc
        cases o with
        | zadd a => exact fun p eq => step_sets st (before p eq)
        | _ => exact before

/-! ## Pending jobs -/

/-- The jobs `ZCOUNT` finds in a pending set. -/
def scheduledAt (st : Store JobId Val Claim) (k : String) : ℕ :=
  ((st.zsets k).entries.filter fun e => Priority.high.score ≤ e.2 ∧ e.2 ≤ Priority.low.score).length

/-- Every pending job has a score between the highest and the lowest priority's. -/
lemma scheduledAt_eq {st : Store JobId Val Claim} {k : String}
    (scored : ∀ {j n}, (st.zsets k).lookup j = some n → ∃ p : Priority, n = p.score) :
    scheduledAt st k = (st.zsets k).keys.length := by
  have all : ∀ e ∈ (st.zsets k).entries,
      decide (Priority.high.score ≤ e.2 ∧ e.2 ≤ Priority.low.score) = true := by
    rintro ⟨j, n⟩ he
    obtain ⟨p, rfl⟩ := scored (AList.mem_lookup_iff.2 he)
    cases p <;> rfl
  rw [scheduledAt, List.filter_eq_self.2 all]
  exact (List.length_map _).symm

/-- The partitions a call names. -/
def Call.partitionUsed (q : WorkQueue) : Call → Option (Option String)
  | .enqueueJobIn part _ _ _ | .claimJobIn part _ => (q.pending.normalize part).toOption
  | _ => none

/-- The default partition and every partition a call was made for. -/
def partitionsUsed (q : WorkQueue) (tr : List (Event (Pc Unit) (Input Unit))) : Finset (Option String) :=
  insert none (tr.filterMap fun ev =>
    match ev.input with
    | .start _ c _ => c.partitionUsed q
    | _ => none).toFinset

/-- A pending job is in the pending set of a partition that was used. -/
lemma pending_used (co : Coherent fun _ : Unit => q) {C : Cond (World Unit) (Pc Unit) (Input Unit)}
    {tr s} (run : Runs (fun _ : Unit => q) C tr s) {k : String} {j : JobId}
    (h : j ∈ s.shared.store.zsets k) : ∃ p ∈ partitionsUsed q tr, k = q.pending.key p := by
  obtain ⟨n, p, hl, rfl⟩ := (placed_run co run).pending h
  obtain ⟨ev, mem, part, params, priority, dl, e, input, -, norm⟩ := issued_run run hl
  refine ⟨p, Finset.mem_insert_of_mem (List.mem_toFinset.2 (List.mem_filterMap.2 ⟨ev, mem, ?_⟩)), rfl⟩
  simp only [input, Call.partitionUsed, norm]
  rfl

/-- Counting over the default partition and the registered ones counts every pending job. -/
lemma scheduled_total (co : Coherent fun _ : Unit => q) {C : Cond (World Unit) (Pc Unit) (Input Unit)}
    {tr s} (run : Runs (fun _ : Unit => q) C tr s) :
    scheduledAt s.shared.store (q.pending.key none) +
      ((s.shared.store.sets q.pending.partitionsKey).map
        fun p => scheduledAt s.shared.store (q.pending.key (some p))).sum =
    (partitionsUsed q tr).sum fun p => (s.shared.store.zsets (q.pending.key p)).keys.length := by
  have sized : ∀ k, scheduledAt s.shared.store k = (s.shared.store.zsets k).keys.length :=
    fun k => scheduledAt_eq (scored_run run)
  have reg := registered_run co run
  have placed := placed_run co run
  have counted : (none :: (s.shared.store.sets q.pending.partitionsKey).map some).Nodup := by
    rw [List.nodup_cons]
    exact ⟨by simp, reg.nodup.map (Option.some_injective _)⟩
  -- a partition that is not registered has nothing pending
  have empty : ∀ p ∉ none :: (s.shared.store.sets q.pending.partitionsKey).map some,
      (s.shared.store.zsets (q.pending.key p)).keys.length = 0 := by
    intro p out
    rw [List.length_eq_zero_iff, List.eq_nil_iff_forall_not_mem]
    intro j hj
    have pending : j ∈ s.shared.store.zsets (q.pending.key p) := AList.mem_keys.2 hj
    obtain ⟨n, p', issued, eq⟩ := placed.pending pending
    obtain rfl : p = p' := (@Coherent.ofKey _ _ co () () _ _ eq).1
    cases p with
    | none => exact out List.mem_cons_self
    | some p =>
      exact out (List.mem_cons_of_mem _ (List.mem_map_of_mem (reg.seen (.pending pending) issued)))
  have unused : ∀ p ∉ partitionsUsed q tr, (s.shared.store.zsets (q.pending.key p)).keys.length = 0 := by
    intro p out
    rw [List.length_eq_zero_iff, List.eq_nil_iff_forall_not_mem]
    intro j hj
    obtain ⟨p', used, eq⟩ := pending_used co run (AList.mem_keys.2 hj)
    obtain rfl : p = p' := (@Coherent.ofKey _ _ co () () _ _ eq).1
    exact out used
  calc scheduledAt s.shared.store (q.pending.key none) +
        ((s.shared.store.sets q.pending.partitionsKey).map
          fun p => scheduledAt s.shared.store (q.pending.key (some p))).sum
      = ((none :: (s.shared.store.sets q.pending.partitionsKey).map some).map
          fun p => (s.shared.store.zsets (q.pending.key p)).keys.length).sum := by
        simp [sized, Function.comp_def]
    _ = (none :: (s.shared.store.sets q.pending.partitionsKey).map some).toFinset.sum
          fun p => (s.shared.store.zsets (q.pending.key p)).keys.length :=
        (List.sum_toFinset _ counted).symm
    _ = ((none :: (s.shared.store.sets q.pending.partitionsKey).map some).toFinset ∪
          partitionsUsed q tr).sum fun p => (s.shared.store.zsets (q.pending.key p)).keys.length :=
        Finset.sum_subset Finset.subset_union_left fun p _ out =>
          empty p fun h => out (List.mem_toFinset.2 h)
    _ = (partitionsUsed q tr).sum fun p => (s.shared.store.zsets (q.pending.key p)).keys.length :=
        (Finset.sum_subset Finset.subset_union_right fun p _ out => unused p out).symm

/-! ## A call of `get_stats` that nobody disturbs -/

/-- What a call of `get_stats` returns from a point on, if the store stays as it is. -/
def StatsPc.final (q : WorkQueue) (st : Store JobId Val Claim) : StatsPc → QueueStats
  | .failed =>
    ⟨st.counters (q.getStatsKey "failed"), st.counters (q.getStatsKey "succeeded"),
      st.counters (q.getStatsKey "errored"), scheduledAt st q.queueKey +
        ((st.sets q.pending.partitionsKey).map fun p => scheduledAt st (q.pending.key (some p))).sum,
      (st.hashes q.claimsKey).entries.length⟩
  | .succeeded f =>
    ⟨f, st.counters (q.getStatsKey "succeeded"), st.counters (q.getStatsKey "errored"),
      scheduledAt st q.queueKey +
        ((st.sets q.pending.partitionsKey).map fun p => scheduledAt st (q.pending.key (some p))).sum,
      (st.hashes q.claimsKey).entries.length⟩
  | .errored f s =>
    ⟨f, s, st.counters (q.getStatsKey "errored"), scheduledAt st q.queueKey +
        ((st.sets q.pending.partitionsKey).map fun p => scheduledAt st (q.pending.key (some p))).sum,
      (st.hashes q.claimsKey).entries.length⟩
  | .partitions f s er =>
    ⟨f, s, er, scheduledAt st q.queueKey +
        ((st.sets q.pending.partitionsKey).map fun p => scheduledAt st (q.pending.key (some p))).sum,
      (st.hashes q.claimsKey).entries.length⟩
  | .scheduled f s er ps =>
    ⟨f, s, er, scheduledAt st q.queueKey + (ps.map fun p => scheduledAt st (q.pending.key (some p))).sum,
      (st.hashes q.claimsKey).entries.length⟩
  | .partition f s er n p rest =>
    ⟨f, s, er, n + ((p :: rest).map fun p => scheduledAt st (q.pending.key (some p))).sum,
      (st.hashes q.claimsKey).entries.length⟩
  | .claimed f s er n => ⟨f, s, er, n, (st.hashes q.claimsKey).entries.length⟩

/-- The commands a call of `get_stats` has ahead of it. -/
def StatsPc.ahead (q : WorkQueue) (st : Store JobId Val Claim) : StatsPc → ℕ
  | .failed => (st.sets q.pending.partitionsKey).length + 6
  | .succeeded _ => (st.sets q.pending.partitionsKey).length + 5
  | .errored _ _ => (st.sets q.pending.partitionsKey).length + 4
  | .partitions _ _ _ => (st.sets q.pending.partitionsKey).length + 3
  | .scheduled _ _ _ ps => ps.length + 2
  | .partition _ _ _ _ _ rest => rest.length + 2
  | .claimed _ _ _ _ => 1

/-- What is not `get_stats` has none ahead of it. -/
def Op.statsAhead (q : WorkQueue) (st : Store JobId Val Claim) : Op → ℕ
  | .stats p => p.ahead q st
  | _ => 0

/-- The same for a thread. -/
def Pc.statsAhead (q : WorkQueue) (st : Store JobId Val Claim) : Pc Unit → ℕ
  | .idle => 0
  | .busy _ o => o.statsAhead q st
  | .finished _ _ => 0

lemma StatsPc.following_final (st : Store JobId Val Claim) (f s er n : ℕ) (ps : List String) :
    (StatsPc.following f s er n ps).final q st =
      ⟨f, s, er, n + (ps.map fun p => scheduledAt st (q.pending.key (some p))).sum,
        (st.hashes q.claimsKey).entries.length⟩ := by
  cases ps with
  | nil => rfl
  | cons p rest => rfl

lemma StatsPc.following_ahead (st : Store JobId Val Claim) (f s er n : ℕ) (ps : List String) :
    (StatsPc.following f s er n ps).ahead q st < ps.length + 2 := by
  cases ps with
  | nil => exact Nat.one_lt_two
  | cons p rest => exact Nat.lt_succ_self _

/-- A command of `get_stats` only reads. -/
lemma StatsPc.effect (p : StatsPc) (i : ℕ) (st : Store JobId Val Claim) :
    (p.code q).cmd.effect i st = st := by
  cases p <;> rfl

/-- A command of `get_stats` brings it closer to what it returns. -/
lemma StatsPc.outcome (p : StatsPc) (i : ℕ) (st : Store JobId Val Claim) :
    (∃ p', (p.code q).outcome i st = .goto p' ∧ p'.final q st = p.final q st ∧
      p'.ahead q st < p.ahead q st) ∨
    ((p.code q).outcome i st = .ret (.ok (p.final q st)) ∧ 0 < p.ahead q st) := by
  cases p with
  | failed => exact .inl ⟨_, rfl, rfl, Nat.lt_succ_self _⟩
  | succeeded f => exact .inl ⟨_, rfl, rfl, Nat.lt_succ_self _⟩
  | errored f s => exact .inl ⟨_, rfl, rfl, Nat.lt_succ_self _⟩
  | partitions f s er => exact .inl ⟨_, rfl, rfl, Nat.lt_succ_self _⟩
  | scheduled f s er ps =>
    exact .inl ⟨_, rfl, StatsPc.following_final st f s er _ ps, StatsPc.following_ahead st f s er _ ps⟩
  | partition f s er n p rest =>
    refine .inl ⟨_, rfl, ?_, StatsPc.following_ahead st f s er _ rest⟩
    rw [StatsPc.following_final, StatsPc.final, List.map_cons, List.sum_cons, ← Nat.add_assoc]
    rfl
  | claimed f s er n => exact .inr ⟨rfl, Nat.one_pos⟩

/-- Undisturbed, a call of `get_stats` returns what it counts. -/
lemma stats_returns {i : ℕ} {s : Conf (World Unit) (Pc Unit)} {p : StatsPc}
    (hpc : s.pc i = .busy () (.stats p)) :
    Inevitable (step fun _ => q) (fun s x => (∃ o, s.pc i = .busy () o) ∧ ∃ e, x = .go e) i
      (fun s' => s'.shared.store = s.shared.store ∧
        s'.pc i = .finished () (.stats (.ok (p.final q s.shared.store)))) s := by
  apply Inevitable.of_measure (fun s' => (s'.pc i).statsAhead q s'.shared.store)
    (I := fun s' => s'.shared.store = s.shared.store ∧
      ((∃ p', s'.pc i = .busy () (.stats p') ∧ p'.final q s.shared.store = p.final q s.shared.store) ∨
        s'.pc i = .finished () (.stats (.ok (p.final q s.shared.store)))))
  · rintro s' ⟨same, ⟨p', hpc, -⟩ | done⟩
    · refine .inr ⟨.go {}, ?_⟩
      rw [hpc]
      exact ⟨_, ⟨⟨_, rfl⟩, _, rfl⟩, rfl⟩
    · exact .inl ⟨same, done⟩
  · rintro s' x w pc ⟨same, ⟨p', hpc, fin⟩ | done⟩ ⟨⟨o, busy⟩, e, rfl⟩ st
    · rw [hpc] at st
      obtain ⟨rfl, rfl⟩ := step_go st
      have kept : (((Op.stats p').code q e).cmd.effect i s'.shared.store) = s'.shared.store :=
        p'.effect i _
      rcases p'.outcome (q := q) i s'.shared.store with ⟨p'', out, fin', less⟩ | ⟨out, pos⟩
      · have onward : ((Op.stats p').code q e).outcome i s'.shared.store = .goto (.stats p'') := by
          simp [Op.code, out, Out.lift]
        rw [same] at fin'
        refine ⟨⟨kept.trans same, .inl ⟨p'', ?_, fin'.trans fin⟩⟩, ?_⟩
        · rw [Conf.move_pc_self, onward]
          rfl
        · simp only [Conf.move_pc_self, Conf.move_shared, onward, Next.pc, hpc, kept]
          exact less
      · have back : ((Op.stats p').code q e).outcome i s'.shared.store =
            .ret (.stats (.ok (p'.final q s'.shared.store))) := by
          simp [Op.code, out, Out.lift]
        refine ⟨⟨kept.trans same, .inr ?_⟩, ?_⟩
        · rw [Conf.move_pc_self, back, same, fin]
          rfl
        · simp only [Conf.move_pc_self, back, Next.pc, hpc]
          exact pos
    · rw [done] at busy
      cases busy
  · exact ⟨rfl, .inl ⟨p, hpc, rfl⟩⟩

/-! ## Resolved jobs -/

/-- No command fails and no operation dies. -/
def Undisrupted : Cond (World Unit) (Pc Unit) (Input Unit) := fun _ _ _ x => x ≠ .fail ∧ x ≠ .crash

/-- The status a call of `resolve_job` reports. -/
def reportedOf (ev : Event (Pc Unit) (Input Unit)) : Option JobStatus :=
  match ev.input with
  | .start _ (.resolveJob _ _ status _) _ => some status
  | _ => none

/-- The result callback fails. -/
def callbackFailedOf (ev : Event (Pc Unit) (Input Unit)) : Bool :=
  match ev.before, ev.input with
  | .busy _ (.resolve (.callback _ _)), .go e =>
    match e.callback with
    | .ok _ => false
    | .error _ => true
  | _, _ => false

/-- The status that was reported by thread `i`. -/
def reported (tr : List (Event (Pc Unit) (Input Unit))) (i : ℕ) : Option JobStatus :=
  tr.findSome? fun ev => if ev.tid = i then reportedOf ev else none

def callbackFailed (tr : List (Event (Pc Unit) (Input Unit))) (i : ℕ) : Bool :=
  tr.any fun ev => ev.tid = i && callbackFailedOf ev

/-- The status the job of thread `i` ends with: `InternalError` when the callback failed, else the
reported one. -/
def finalStatus (tr : List (Event (Pc Unit) (Input Unit))) (i : ℕ) : Option JobStatus :=
  if callbackFailed tr i then some .internalError else reported tr i

/-- The threads that have taken a step. -/
def callers (tr : List (Event (Pc Unit) (Input Unit))) : Finset ℕ := (tr.map (·.tid)).toFinset

/-- The calls of `resolve_job` that ended well, their job with status `f`. -/
def endedWith (f : JobStatus) (tr : List (Event (Pc Unit) (Input Unit)))
    (s : Conf (World Unit) (Pc Unit)) : Finset ℕ :=
  (callers tr).filter fun i => s.pc i = .finished () (.resolved (.ok ())) ∧ finalStatus tr i = some f

/-- The call has counted its job. -/
def ResolvePc.counted : ResolvePc → Bool
  | .publish _ _ _ | .delJob _ | .delResult _ => true
  | _ => false

def Pc.counted : Pc Unit → Bool
  | .busy _ (.resolve p) => p.counted
  | .finished _ (.resolved (.ok _)) => true
  | _ => false

/-- The calls that have counted a job with final status `f`. -/
def counted (f : JobStatus) (tr : List (Event (Pc Unit) (Input Unit)))
    (s : Conf (World Unit) (Pc Unit)) : Finset ℕ :=
  (callers tr).filter fun i => (s.pc i).counted = true ∧ finalStatus tr i = some f

/-- Where no operation is in progress, the calls that have counted are those that ended. -/
lemma counted_eq_endedWith {f : JobStatus} {tr : List (Event (Pc Unit) (Input Unit))}
    {s : Conf (World Unit) (Pc Unit)} (complete : ∀ k, (s.pc k).isBusy = false) :
    counted f tr s = endedWith f tr s := by
  refine Finset.filter_congr fun i _ => and_congr_left fun _ => ?_
  have still := complete i
  cases hpc : s.pc i with
  | idle => simp [Pc.counted]
  | busy n o =>
    rw [hpc] at still
    cases still
  | finished n r =>
    cases r with
    | resolved r => cases r <;> simp [Pc.counted]
    | _ => simp [Pc.counted]

section Trace

variable {tr : List (Event (Pc Unit) (Input Unit))} {ev : Event (Pc Unit) (Input Unit)} {i k : ℕ}

lemma reported_cons_of_none (h : ev.tid ≠ i ∨ reportedOf ev = none) :
    reported (ev :: tr) i = reported tr i := by
  have silent : (if ev.tid = i then reportedOf ev else none) = none := by
    rcases h with ne | none
    · exact if_neg ne
    · rw [none]
      exact ite_self _
  rw [reported, List.findSome?_cons, silent]
  rfl

lemma callbackFailed_cons_of_false (h : ev.tid ≠ i ∨ callbackFailedOf ev = false) :
    callbackFailed (ev :: tr) i = callbackFailed tr i := by
  have silent : (ev.tid = i && callbackFailedOf ev) = false := by
    rcases h with ne | fine
    · simp [ne]
    · simp [fine]
  rw [callbackFailed, List.any_cons, silent, Bool.false_or]
  rfl

/-- A step of another thread, or one that neither reports a status nor calls back. -/
lemma finalStatus_cons (h : ev.tid ≠ i ∨ (reportedOf ev = none ∧ callbackFailedOf ev = false)) :
    finalStatus (ev :: tr) i = finalStatus tr i := by
  rw [finalStatus, finalStatus, reported_cons_of_none (h.imp_right And.left),
    callbackFailed_cons_of_false (h.imp_right And.right)]

end Trace

/-- What a call of `resolve_job` knows of its final status. -/
def ResolvePc.knows (tr : List (Event (Pc Unit) (Input Unit))) (i : ℕ) : ResolvePc → Prop
  | .hget a | .get a | .hdel a _ | .callback a _ =>
    a.status.isResolved = true ∧ reported tr i = some a.status ∧ callbackFailed tr i = false
  | .set _ final _ | .setEx _ final _ | .incr _ final _ | .publish _ final _ =>
    final.isResolved = true ∧ finalStatus tr i = some final
  | .delJob _ | .delResult _ => True

def Pc.knows (tr : List (Event (Pc Unit) (Input Unit))) (i : ℕ) : Pc Unit → Prop
  | .idle => callbackFailed tr i = false
  | .busy _ (.resolve p) => p.knows tr i
  | _ => True

/-- The counters say how many calls have counted. -/
structure Counting (q : WorkQueue) (tr : List (Event (Pc Unit) (Input Unit)))
    (s : Conf (World Unit) (Pc Unit)) : Prop where
  called : ∀ i, s.pc i = .idle ∨ i ∈ callers tr
  knows : ∀ i, (s.pc i).knows tr i
  counters : ∀ f, f.isResolved = true →
    s.shared.store.counters (q.getStatsKey f.asStatName) = (counted f tr s).card

section Step

variable {tr : List (Event (Pc Unit) (Input Unit))} {s : Conf (World Unit) (Pc Unit)} {i k : ℕ}
  {x : Input Unit} {w : World Unit} {p : Pc Unit} {f : JobStatus}

lemma mem_callers_cons {ev : Event (Pc Unit) (Input Unit)} :
    k ∈ callers (ev :: tr) ↔ k = ev.tid ∨ k ∈ callers tr := by
  simp [callers]

/-- A thread knows what it knew after another one's step. -/
lemma Pc.knows_other {ev : Event (Pc Unit) (Input Unit)} (ne : ev.tid ≠ i) {pc : Pc Unit}
    (h : pc.knows tr i) : pc.knows (ev :: tr) i := by
  cases pc with
  | idle => exact (callbackFailed_cons_of_false (.inl ne)).trans h
  | busy n o =>
    cases o with
    | resolve r =>
      cases r with
      | hget a | get a | hdel a d | callback a d =>
        exact ⟨h.1, (reported_cons_of_none (.inl ne)).trans h.2.1,
          (callbackFailed_cons_of_false (.inl ne)).trans h.2.2⟩
      | set a g c | setEx a g c | incr a g c | publish a g c =>
        exact ⟨h.1, (finalStatus_cons (.inl ne)).trans h.2⟩
      | delJob a | delResult a => trivial
    | _ => trivial
  | finished n r => trivial

/-- A step that leaves its thread's part in the count as it was. -/
lemma counted_kept (called : s.pc i = .idle ∨ i ∈ callers tr) (same : p.counted = (s.pc i).counted)
    (final : p.counted = true → finalStatus (⟨i, s.pc i, x, p⟩ :: tr) i = finalStatus tr i) :
    counted f (⟨i, s.pc i, x, p⟩ :: tr) (s.move i w p) = counted f tr s := by
  ext k
  simp only [counted, Finset.mem_filter, mem_callers_cons]
  rcases s.move_pc i w p k with ⟨rfl, moved⟩ | ⟨ne, moved⟩ <;> rw [moved]
  · cases hc : p.counted with
    | false =>
      rw [hc] at same
      simp [← same]
    | true =>
      have stepped : k ∈ callers tr := by
        refine called.resolve_left fun idle => ?_
        rw [hc, idle] at same
        cases same
      rw [final hc, ← same, hc]
      simp [stepped]
  · rw [finalStatus_cons (.inl (Ne.symm ne))]
    simp [ne]

/-- A step that counts a job with status `g`. -/
lemma counted_gained {g : JobStatus} (out : (s.pc i).counted = false) (inn : p.counted = true)
    (final : finalStatus (⟨i, s.pc i, x, p⟩ :: tr) i = some g) :
    (counted f (⟨i, s.pc i, x, p⟩ :: tr) (s.move i w p)).card =
      (counted f tr s).card + if f = g then 1 else 0 := by
  have absent : i ∉ counted f tr s := by
    simp [counted, out]
  by_cases eq : f = g
  · subst eq
    have added : counted f (⟨i, s.pc i, x, p⟩ :: tr) (s.move i w p) = insert i (counted f tr s) := by
      ext k
      simp only [counted, Finset.mem_filter, mem_callers_cons, Finset.mem_insert]
      rcases s.move_pc i w p k with ⟨rfl, moved⟩ | ⟨ne, moved⟩ <;> rw [moved]
      · simp [inn, final]
      · rw [finalStatus_cons (.inl (Ne.symm ne))]
        simp [ne]
    rw [added, Finset.card_insert_of_notMem absent, if_pos rfl]
  · have same : counted f (⟨i, s.pc i, x, p⟩ :: tr) (s.move i w p) = counted f tr s := by
      ext k
      simp only [counted, Finset.mem_filter, mem_callers_cons]
      rcases s.move_pc i w p k with ⟨rfl, moved⟩ | ⟨ne, moved⟩ <;> rw [moved]
      · simp [final, Ne.symm eq, out]
      · rw [finalStatus_cons (.inl (Ne.symm ne))]
        simp [ne]
    rw [same, if_neg eq, Nat.add_zero]

/-- Counters are counted up by `resolve_job` only. -/
lemma cmd_incr {e : Env} {o : Op} {key : String} (h : (o.code q e).cmd = .incr key) :
    ∃ a final cleanup, o = .resolve (.incr a final cleanup) := by
  cases o with
  | resolve r =>
    cases r with
    | incr a final cleanup => exact ⟨a, final, cleanup, rfl⟩
    | _ => cases h
  | wait r =>
    cases r with
    | status j t s => cases s <;> cases h
    | _ => cases h
  | orphans r =>
    cases r with
    | delete d rest => cases d <;> cases h
    | next rest => cases rest <;> cases h
    | _ => cases h
  | claim r =>
    cases r with
    | cancel a r c => cases c <;> cases h
    | _ => cases h
  | enqueue r => cases r <;> cases h
  | reclaim r => cases r <;> cases h
  | cancel r => cases r <;> cases h
  | checker r => cases r <;> cases h
  | status r => cases r <;> cases h
  | delete r => cases r <;> cases h
  | stats r => cases r <;> cases h

lemma getStatsKey_injective {a b : String} (h : q.getStatsKey a = q.getStatsKey b) : a = b := by
  simpa [WorkQueue.getStatsKey, String.append_assoc] using h

lemma asStatName_injective {g : JobStatus} (hf : f.isResolved = true) (hg : g.isResolved = true)
    (h : f.asStatName = g.asStatName) : f = g := by
  cases f <;> cases g <;> simp_all [JobStatus.isResolved, JobStatus.asStatName]

/-- A call of `resolve_job` knows its final status as soon as there is one. -/
lemma ResolvePc.knows_goto {r r' : ResolvePc} {e : Env} {c : ℕ} {st : Store JobId Val Claim}
    (h : r.knows tr i) (g : (r.code q e).outcome c st = .goto r') :
    r'.knows (⟨i, .busy () (.resolve r), .go e, p⟩ :: tr) i := by
  have report : reported (⟨i, .busy () (.resolve r), .go e, p⟩ :: tr) i = reported tr i :=
    reported_cons_of_none (.inr rfl)
  -- every point but the callback is silent
  have silent : callbackFailedOf ⟨i, .busy () (.resolve r), .go e, p⟩ = false →
      callbackFailed (⟨i, .busy () (.resolve r), .go e, p⟩ :: tr) i = callbackFailed tr i ∧
      finalStatus (⟨i, .busy () (.resolve r), .go e, p⟩ :: tr) i = finalStatus tr i :=
    fun fine => ⟨callbackFailed_cons_of_false (.inr fine), finalStatus_cons (.inr ⟨rfl, fine⟩)⟩
  have settled : ∀ {a : Resolve}, reported tr i = some a.status → callbackFailed tr i = false →
      finalStatus tr i = some a.status := by
    intro a rep fine
    rw [finalStatus, fine, if_neg Bool.false_ne_true, rep]
  cases r with
  | hget a =>
    obtain ⟨resolved, rep, fine⟩ := h
    simp only [code, Instr.outcome] at g
    split at g
    · cases g
    · split at g <;> cases g
      exact ⟨resolved, report.trans rep, (silent rfl).1.trans fine⟩
  | get a =>
    obtain ⟨resolved, rep, fine⟩ := h
    simp only [code, Instr.outcome] at g
    split at g <;> cases g
    exact ⟨resolved, report.trans rep, (silent rfl).1.trans fine⟩
  | hdel a d =>
    obtain ⟨resolved, rep, fine⟩ := h
    simp only [code, Instr.outcome] at g
    split at g <;> cases g
    · exact ⟨resolved, report.trans rep, (silent rfl).1.trans fine⟩
    · exact ⟨resolved, (silent rfl).2.trans (settled rep fine)⟩
  | callback a d =>
    obtain ⟨resolved, rep, fine⟩ := h
    simp only [code, Instr.outcome] at g
    split at g <;> cases g
    · rename_i processed answer
      have quiet : callbackFailedOf ⟨i, .busy () (.resolve (.callback a d)), .go e, p⟩ = false := by
        simp only [callbackFailedOf, answer]
      exact ⟨resolved, (silent quiet).2.trans (settled rep fine)⟩
    · rename_i err answer
      have failed : callbackFailed (⟨i, .busy () (.resolve (.callback a d)), .go e, p⟩ :: tr) i = true := by
        simp only [callbackFailed, List.any_cons, callbackFailedOf, answer]
        simp
      exact ⟨rfl, by rw [finalStatus, failed, if_pos rfl]⟩
  | set a final cleanup =>
    cases g
    exact ⟨h.1, (silent rfl).2.trans h.2⟩
  | setEx a final cleanup =>
    cases g
    exact ⟨h.1, (silent rfl).2.trans h.2⟩
  | incr a final cleanup =>
    cases g
    exact ⟨h.1, (silent rfl).2.trans h.2⟩
  | publish a final cleanup =>
    simp only [code, Instr.outcome] at g
    split at g <;> cases g
    trivial
  | delJob a =>
    cases g
    trivial
  | delResult a => cases g

/-- Only its `INCR` makes a call count its job. -/
lemma ResolvePc.counted_pc {r : ResolvePc} {e : Env} {c : ℕ} {t : Store JobId Val Claim}
    (other : ∀ a final cleanup, r ≠ .incr a final cleanup) :
    (((Op.resolve r).code q e).outcome c t |>.pc ()).counted = r.counted := by
  simp only [Op.code, Instr.map_outcome]
  cases r with
  | hget a =>
    simp only [code, Instr.outcome]
    split
    · rfl
    · split <;> rfl
  | get a =>
    simp only [code, Instr.outcome]
    split <;> rfl
  | hdel a d =>
    simp only [code, Instr.outcome]
    split <;> rfl
  | callback a d =>
    simp only [code, Instr.outcome]
    split <;> rfl
  | incr a final cleanup => exact absurd rfl (other a final cleanup)
  | publish a final cleanup =>
    simp only [code, Instr.outcome]
    split <;> rfl
  | _ => rfl

/-- An operation that is not `resolve_job` counts nothing. -/
lemma counted_pc_other {o : Op} {e : Env} {c : ℕ} {t : Store JobId Val Claim}
    (other : ∀ r, o ≠ .resolve r) : (((o.code q e).outcome c t).pc ()).counted = false ∧
      ∀ tr i, (((o.code q e).outcome c t).pc ()).knows tr i := by
  cases o <;> rename_i r
  case resolve => exact absurd rfl (other r)
  all_goals simp only [Op.code, Instr.map_outcome]
  case enqueue | cancel | status | delete | stats =>
    cases (r.code q).outcome c t <;> exact ⟨rfl, fun _ _ => trivial⟩
  case claim | reclaim | checker | wait | orphans =>
    cases (r.code q e).outcome c t <;> exact ⟨rfl, fun _ _ => trivial⟩

/-- What a call of `resolve_job` knows at the point it goes to. -/
lemma ResolvePc.knows_pc {r : ResolvePc} {e : Env} {c : ℕ} {t : Store JobId Val Claim}
    (h : r.knows tr i) : (((Op.resolve r).code q e).outcome c t |>.pc ()).knows
      (⟨i, .busy () (.resolve r), .go e, p⟩ :: tr) i := by
  simp only [Op.code, Instr.map_outcome]
  cases g : (r.code q e).outcome c t with
  | goto r' => exact ResolvePc.knows_goto h g
  | ret b => trivial

/-- Every call of `resolve_job` starts knowing what it reports. -/
lemma begin_knows {c : Call} {e : Env} (idle : s.pc i = .idle) (fine : callbackFailed tr i = false) :
    ((c.begin q e).pc ()).counted = false ∧
      ((c.begin q e).pc ()).knows (⟨i, s.pc i, .start () c e, p⟩ :: tr) i := by
  have quiet : callbackFailed (⟨i, s.pc i, .start () c e, p⟩ :: tr) i = false := by
    rw [callbackFailed_cons_of_false (.inr (by rw [callbackFailedOf, idle]))]
    exact fine
  cases hb : c.begin q e with
  | ret r =>
    cases c with
    | enqueueJobIn part params pr dl =>
      simp only [Call.begin] at hb
      split at hb <;> cases hb
      exact ⟨rfl, trivial⟩
    | claimJobIn part workerId =>
      simp only [Call.begin] at hb
      split at hb <;> cases hb
      exact ⟨rfl, trivial⟩
    | resolveJob workerId j status result =>
      simp only [Call.begin] at hb
      split at hb <;> cases hb
      exact ⟨rfl, trivial⟩
    | _ => cases hb
  | goto o =>
    cases Call.begins hb with
    | resolve resolved => exact ⟨rfl, resolved, by simp [reported, reportedOf], quiet⟩
    | _ => exact ⟨rfl, trivial⟩

end Step

/-- Every step that neither fails nor dies keeps the count. -/
theorem counting_step {tr : List (Event (Pc Unit) (Input Unit))} {s : Conf (World Unit) (Pc Unit)}
    (inv : Counting q tr s) {i : ℕ} {x : Input Unit} {w : World Unit} {p : Pc Unit}
    (goes : x ≠ .fail ∧ x ≠ .crash) (st : step (fun _ => q) i s.shared (s.pc i) x = some (w, p)) :
    Counting q (⟨i, s.pc i, x, p⟩ :: tr) (s.move i w p) := by
  -- what is left to show of a step, the other threads being where they were
  have build : p.knows (⟨i, s.pc i, x, p⟩ :: tr) i →
      (∀ f, f.isResolved = true → w.store.counters (q.getStatsKey f.asStatName) =
        (counted f (⟨i, s.pc i, x, p⟩ :: tr) (s.move i w p)).card) →
      Counting q (⟨i, s.pc i, x, p⟩ :: tr) (s.move i w p) := by
    intro knows counters
    refine ⟨fun k => ?_, fun k => ?_, counters⟩
    · rw [mem_callers_cons]
      rcases s.move_pc i w p k with ⟨rfl, -⟩ | ⟨-, moved⟩
      · exact .inr (.inl rfl)
      · rw [moved]
        exact (inv.called k).imp_right .inr
    · rcases s.move_pc i w p k with ⟨rfl, moved⟩ | ⟨ne, moved⟩ <;> rw [moved]
      · exact knows
      · exact Pc.knows_other (Ne.symm ne) (inv.knows k)
  -- a step that counts no job
  have kept : (∀ k, w.store.counters k = s.shared.store.counters k) → p.counted = (s.pc i).counted →
      (p.counted = true → finalStatus (⟨i, s.pc i, x, p⟩ :: tr) i = finalStatus tr i) →
      ∀ f, f.isResolved = true → w.store.counters (q.getStatsKey f.asStatName) =
        (counted f (⟨i, s.pc i, x, p⟩ :: tr) (s.move i w p)).card := by
    intro same out final f hf
    rw [counted_kept (inv.called i) out final, same]
    exact inv.counters f hf
  rcases step_cases st with ⟨n, c, e, hpc, rfl, -, rfl, rfl⟩ | ⟨n, o, e, hpc, rfl, rfl, rfl⟩ |
    ⟨n, o, -, rfl, -⟩ | ⟨n, o, -, rfl, -⟩ | ⟨key, hpc, rfl, -, rfl, rfl⟩
  · have fine : callbackFailed tr i = false := by
      have idle := inv.knows i
      rwa [hpc] at idle
    obtain ⟨out, knows⟩ := begin_knows (q := q) (p := (c.begin q e).pc ()) (c := c) (e := e) hpc fine
    refine build knows (kept (fun k => by simp) ?_ fun inn => ?_)
    · rw [hpc]
      exact out
    · rw [out] at inn
      cases inn
  · have counters : (∀ a final cleanup, o ≠ .resolve (.incr a final cleanup)) → ∀ k,
        ((o.code q e).cmd.effect i s.shared.store).counters k = s.shared.store.counters k := by
      intro other k
      refine (Redis.counters_effect k).resolve_right fun inc => ?_
      obtain ⟨a, final, cleanup, eq⟩ := cmd_incr inc
      exact other a final cleanup eq
    by_cases resolves : ∃ r, o = .resolve r
    · obtain ⟨r, rfl⟩ := resolves
      have known : r.knows tr i := by
        have known := inv.knows i
        rwa [hpc] at known
      by_cases counts : ∃ a final cleanup, r = .incr a final cleanup
      · obtain ⟨a, final, cleanup, rfl⟩ := counts
        obtain ⟨resolved, isFinal⟩ := known
        have after : finalStatus (⟨i, s.pc i, .go e, .busy () (.resolve (.publish a final cleanup))⟩ :: tr) i =
            some final := by
          rw [finalStatus_cons (.inr ⟨rfl, by rw [callbackFailedOf, hpc]⟩), isFinal]
        refine build ⟨resolved, after⟩ fun f hf => ?_
        refine Eq.trans ?_ (counted_gained (f := f) (g := final) (by rw [hpc]; rfl) rfl after).symm
        rw [← inv.counters f hf]
        show Function.update s.shared.store.counters (q.getStatsKey final.asStatName) _ _ = _
        by_cases eq : f = final
        · subst eq
          rw [Function.update_self, if_pos rfl]
        · have ne : q.getStatsKey f.asStatName ≠ q.getStatsKey final.asStatName :=
            fun same => eq (asStatName_injective hf resolved (getStatsKey_injective same))
          rw [if_neg eq, Function.update_of_ne ne]
          rfl
      · have other : ∀ a final cleanup, r ≠ .incr a final cleanup :=
          fun a final cleanup eq => counts ⟨a, final, cleanup, eq⟩
        have same := ResolvePc.counted_pc (q := q) (e := e) (c := i) (t := s.shared.store) other
        refine build ?_ (kept (counters fun a final cleanup eq => ?_) ?_ fun inn => ?_)
        · rw [hpc]
          exact ResolvePc.knows_pc known
        · cases eq
          exact other a final cleanup rfl
        · rw [hpc]
          exact same
        · -- a call that has counted is past its callback
          refine finalStatus_cons (.inr ⟨rfl, ?_⟩)
          rw [same] at inn
          rw [callbackFailedOf, hpc]
          cases r with
          | callback a d => cases inn
          | _ => rfl
    · have other : ∀ r, o ≠ .resolve r := fun r eq => resolves ⟨r, eq⟩
      obtain ⟨out, knows⟩ := counted_pc_other (q := q) (e := e) (c := i) (t := s.shared.store) other
      refine build (knows _ _) (kept (counters fun a final cleanup => other _) ?_ fun inn => ?_)
      · rw [hpc]
        refine out.trans ?_
        cases o with
        | resolve r => exact absurd rfl (other r)
        | _ => rfl
      · rw [out] at inn
        cases inn
  · exact absurd rfl goes.1
  · exact absurd rfl goes.2
  · refine build ?_ (kept (fun k => rfl) ?_ fun inn => ?_)
    · have idle := inv.knows i
      rw [hpc] at idle ⊢
      exact (callbackFailed_cons_of_false (.inr rfl)).trans idle
    · rw [hpc]
    · cases inn

lemma counting_initial : Counting q [] Conf.initial where
  called _ := .inl rfl
  knows _ := rfl
  counters _ _ := rfl

/-- Along every run in which nothing fails the counters say how many calls have counted. -/
theorem counting_run {tr s} (run : Runs (fun _ : Unit => q) Undisrupted tr s) : Counting q tr s := by
  refine run.invariant (I := fun tr s => Counting q tr s) counting_initial ?_
  intro tr s i x w p inv goes st
  exact counting_step inv goes st

/-- Stats count everything. Where no operation is in progress, in a run in which nothing failed, a call of
`get_stats` returns: the number of pending jobs over the pending sets of all partitions that were used,
which are all there are; the number of claims; and for each final status the number of calls of
`resolve_job` that ended with it. -/
theorem stats_count_everything {b : WorkQueueBuilder} (hq : b.build = .ok q) {tr s}
    (run : Runs (fun _ : Unit => q) Undisrupted tr s) (complete : ∀ k, (s.pc k).isBusy = false) {i : ℕ}
    {e : Env} {w : World Unit} {p : Pc Unit}
    (st : step (fun _ => q) i s.shared (s.pc i) (.start () .getStats e) = some (w, p)) :
    ∃ stats : QueueStats,
      Inevitable (step fun _ => q) (fun s x => (∃ o, s.pc i = .busy () o) ∧ ∃ e, x = .go e) i
        (fun s' => s'.shared.store = s.shared.store ∧ s'.pc i = .finished () (.stats (.ok stats)))
        (s.move i w p) ∧
      (∀ k j, j ∈ s.shared.store.zsets k → ∃ p ∈ partitionsUsed q tr, k = q.pending.key p) ∧
      stats.jobsScheduled =
        ((partitionsUsed q tr).sum fun p => (s.shared.store.zsets (q.pending.key p)).keys.length) ∧
      stats.jobsClaimed = (s.shared.store.hashes q.claimsKey).keys.length ∧
      stats.jobsSucceeded = (endedWith .success tr s).card ∧
      stats.jobsFailed = (endedWith .failure tr s).card ∧
      stats.jobsErrored = (endedWith .internalError tr s).card := by
  have built := WorkQueueBuilder.build_built hq
  have co := coherent_one hq
  have default : q.queueKey = q.pending.key none := built.queue.trans built.default.symm
  have counts : ∀ f, f.isResolved = true →
      s.shared.store.counters (q.getStatsKey f.asStatName) = (endedWith f tr s).card := by
    intro f hf
    rw [(counting_run run).counters f hf, counted_eq_endedWith complete]
  rcases step_cases st with ⟨n, c, e', -, eq, -, rfl, rfl⟩ | ⟨_, _, _, -, eq, -⟩ | ⟨_, _, -, eq, -⟩ |
    ⟨_, _, -, eq, -⟩ | ⟨_, -, eq, -⟩ <;> cases eq
  refine ⟨StatsPc.final q s.shared.store .failed,
    stats_returns (s := s.move i _ _) (p := .failed) (Conf.move_pc_self _ _ _ _),
    fun k j h => pending_used co run h, ?_, (List.length_map _).symm, counts .success rfl,
    counts .failure rfl, counts .internalError rfl⟩
  rw [← scheduled_total co run, StatsPc.final, default]

/-- A job of the default partition is enqueued, claimed and resolved, and one of another partition is
enqueued. -/
def statsSchedule : List (ℕ × Input Unit) :=
  callOf 0 (.enqueueJobIn none "" .normal 60) 3 ++
    callOf 1 (.enqueueJobIn (some "0.6.8") "" .normal 60) 4 { fresh := ⟨1⟩ } ++
    callOf 2 (.claimJobIn none "w") 4 ++ callOf 3 (.resolveJob "w" ⟨0⟩ .success none) 7

/-- `Undisrupted` as a test. -/
def undisruptedBy (x : Input Unit) : Bool := x ≠ .fail ∧ x ≠ .crash

/-- The schedule leaves one job pending and one resolved. -/
lemma statsSchedule_leaves : ∃ tr s, Runs (fun _ : Unit => testQueue.queue) Undisrupted tr s ∧
    (∀ k, (s.pc k).isBusy = false) ∧ s.pc 4 = .idle ∧
    ((partitionsUsed testQueue.queue tr).sum
      fun p => (s.shared.store.zsets (testQueue.queue.pending.key p)).keys.length) = 1 ∧
    (endedWith .success tr s).card = 1 := by
  refine ⟨traceOf testMachine Conf.initial statsSchedule, finalOf testMachine Conf.initial statsSchedule,
    ?_, ?_, ?_, ?_, ?_⟩
  · exact exec_run_checked (c := fun _ _ => undisruptedBy) (fun h => of_decide_eq_true h) (by decide +kernel)
  · apply finalOf_forall (P := fun _ (p : Pc Unit) => p.isBusy = false) (b := 4)
    · intro k
      rfl
    · decide
    · decide +kernel
  · exact finalOf_pc (by decide)
  · decide +kernel
  · decide +kernel

/-- One job is counted as pending and one as succeeded. -/
theorem stats_count_two : ∃ (s : Conf (World Unit) (Pc Unit)) (stats : QueueStats),
    Inevitable (step fun _ : Unit => testQueue.queue) (fun s x => (∃ o, s.pc 4 = .busy () o) ∧ ∃ e, x = .go e) 4
      (fun s' => s'.shared.store = s.shared.store ∧ s'.pc 4 = .finished () (.stats (.ok stats)))
      (s.move 4 s.shared (.busy () (.stats .failed))) ∧
    stats.jobsScheduled = 1 ∧ stats.jobsSucceeded = 1 := by
  obtain ⟨tr, s, run, complete, idle, pending, ended⟩ := statsSchedule_leaves
  have st : step (fun _ => testQueue.queue) 4 s.shared (s.pc 4) (.start () .getStats {}) =
      some (s.shared, .busy () (.stats .failed)) := by
    rw [idle]
    rfl
  obtain ⟨stats, returns, -, scheduled, -, succeeded, -⟩ :=
    stats_count_everything (b := testQueue) rfl run complete st
  exact ⟨s, stats, returns, scheduled.trans pending, succeeded.trans ended⟩

end ArchipelagoXL.Wq
