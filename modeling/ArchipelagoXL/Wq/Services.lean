import ArchipelagoXL.Wq.Partition

/-!
# The queues of the lobby and of the review tool

The lobby builds a queue for YAML validation, one for generation and one for options
(`lobby/src/lib.rs`), and the review tool builds one for YAML analysis
(`community-ap-tools/src/main.rs`). They share one server, and the queue of the review tool has the
name of the generation queue. What keeps their jobs apart is the default partition: the lobby's queues
keep the jobs of the legacy version under the keys without a partition, where the review tool never
looks. At every other version the two queues have one pending set, and a worker of either is given the
jobs of both (`queue_crossed`).

Jobs stay in their own queue as long as no such version is used to enqueue through one of the two and
to claim through the other, and a job is reported to the queue it was enqueued through (`Apart`).
-/

namespace ArchipelagoXL.Wq

open Redis (Instr Cmd Store)
open Interleave

/-- The queues that share a server. -/
inductive Service where
  | yamlValidation
  | generation
  | optionsGen
  | yamlAnalysis
deriving DecidableEq

/-- How the two programs are set up. The lobby stops at its start if `build` refuses the name of its
default partition. -/
structure Deployment where
  /-- Rust `index_manager.legacy_base()`. -/
  legacyBase : String
  parsesParams : Service → String → Bool
  parsesResult : Service → String → Bool
  legacyBase_ok : validatePartition legacyBase = .ok ()

/-- The name a queue is built with. -/
def Service.queueName : Service → String
  | .yamlValidation => "yaml_validation"
  | .generation => "generation_queue"
  | .optionsGen => "options_gen"
  | .yamlAnalysis => "generation_queue"

/-- The only name two queues have in common. -/
lemma Service.same_name {n n' : Service} (h : n.queueName = n'.queueName) :
    n = n' ∨ (n = .generation ∧ n' = .yamlAnalysis) ∨ (n = .yamlAnalysis ∧ n' = .generation) := by
  cases n <;> cases n' <;> simp [queueName] at h ⊢

namespace Deployment

/-- The default partition a queue is built with. -/
def defaultPartition (d : Deployment) : Service → Option String
  | .yamlValidation | .generation | .optionsGen => some d.legacyBase
  | .yamlAnalysis => none

/-- The builder of a queue, as its program sets it up. -/
def builder (d : Deployment) (n : Service) : WorkQueueBuilder where
  queueName := n.queueName
  defaultPartition := d.defaultPartition n
  reclaimTimeout := match n with
    | .yamlValidation | .generation | .optionsGen => 10000000000
    | .yamlAnalysis => 60000000000
  hasCallback := true
  parsesParams := d.parsesParams n
  parsesResult := d.parsesResult n

/-- The queues as they are built. -/
def queues (d : Deployment) (n : Service) : WorkQueue := (d.builder n).queue

lemma build_ok (d : Deployment) (n : Service) : (d.builder n).build = .ok (d.queues n) := by
  cases n <;> simp [builder, defaultPartition, WorkQueueBuilder.build, d.legacyBase_ok, queues, bind,
    Except.bind, pure, Except.pure]

lemma built (d : Deployment) (n : Service) : Built (d.queues n) n.queueName :=
  WorkQueueBuilder.build_built (d.build_ok n)

lemma coherent (d : Deployment) : Coherent d.queues := by
  refine coherent_of_built d.built ?_
  intro n n'
  refine .inr ⟨?_, ?_⟩
  · cases n <;> decide
  · cases n' <;> decide

lemma queueName_of_claims (d : Deployment) {n n' : Service}
    (h : (d.queues n).claimsKey = (d.queues n').claimsKey) : n.queueName = n'.queueName :=
  (d.built n).name_of_claims (d.built n') h

/-- Two queues of one name normalize a version to the same partition only if it is not the legacy
version. -/
lemma normalize_meets (d : Deployment) {n n' : Service} {v v' : String} {p : Option String}
    (same : n.queueName = n'.queueName) (h : (d.queues n).pending.normalize (some v) = .ok p)
    (h' : (d.queues n').pending.normalize (some v') = .ok p) :
    n = n' ∨ (v = v' ∧ v ≠ d.legacyBase) := by
  have pair : ∀ {v v' : String} {p}, (d.queues .generation).pending.normalize (some v) = .ok p →
      (d.queues .yamlAnalysis).pending.normalize (some v') = .ok p → v = v' ∧ v ≠ d.legacyBase := by
    intro v v' p h h'
    rcases PendingKeys.normalize_ok h' with ⟨-, e' | e'⟩ | ⟨rfl, -⟩
    · cases e'
    · cases e'
    · rcases PendingKeys.normalize_ok h with ⟨e, -⟩ | ⟨e, ne⟩
      · cases e
      · cases e
        exact ⟨rfl, fun e => ne (congrArg some e)⟩
  rcases Service.same_name same with rfl | ⟨rfl, rfl⟩ | ⟨rfl, rfl⟩
  · exact .inl rfl
  · exact .inr (pair h h')
  · obtain ⟨rfl, ne⟩ := pair h' h
    exact .inr ⟨rfl, ne⟩

end Deployment

/-! ## Jobs and the queues they were enqueued through -/

section General

variable {N : Type} {queues : N → WorkQueue}

/-- The job was enqueued through `n`, and through no other queue. -/
def OnlyThrough (queues : N → WorkQueue) (tr : List (Event (Pc N) (Input N))) (n : N) (j : JobId) :
    Prop :=
  (∃ p, EnqueuedBy queues tr n j p) ∧ ∀ n' p, EnqueuedBy queues tr n' j p → n' = n

/-- A call to `enqueue_job_in` in the trace has its id given out to it. -/
lemma issued_of_enqueuedBy {C : Cond (World N) (Pc N) (Input N)} {tr s} (run : Runs queues C tr s)
    {n : N} {j : JobId} {p : Option String} (h : EnqueuedBy queues tr n j p) :
    s.shared.issued.lookup j = some (n, p) := by
  obtain ⟨ev, mem, part, params, priority, dl, e, hx, rfl, hn⟩ := h
  induction run with
  | nil => cases mem
  | @cons tr s i x w pc run _ st ih =>
    rcases List.mem_cons.1 mem with rfl | mem
    · simp only at hx
      subst hx
      rcases step_cases st with ⟨q, c, e', hpc, eq, poss, rfl, rfl⟩ | ⟨_, _, _, _, eq, -⟩ |
        ⟨_, _, _, eq, -⟩ | ⟨_, _, _, eq, -⟩ | ⟨_, _, eq, -⟩ <;> cases eq
      simp [Call.begin, hn, World.issue]
    · exact step_issued st (ih mem)

lemma onlyThrough_of_issued {C : Cond (World N) (Pc N) (Input N)} {tr s} (run : Runs queues C tr s)
    {n : N} {j : JobId} {p : Option String} (h : s.shared.issued.lookup j = some (n, p)) :
    OnlyThrough queues tr n j := by
  refine ⟨⟨p, issued_run run h⟩, ?_⟩
  intro n' p' h'
  have l := issued_of_enqueuedBy run h'
  rw [h] at l
  cases l
  rfl

/-- A claiming thread made a call to `claim_job_in` in the partition it claims from. -/
lemma claim_called {C : Cond (World N) (Pc N) (Input N)} {tr s} (run : Runs queues C tr s)
    {i : ℕ} {n : N} {p : ClaimPc} (hpc : s.pc i = .busy n (.claim p)) :
    ∃ ev ∈ tr, ∃ part wk e, ev.input = .start n (.claimJobIn part wk) e ∧
      (queues n).pending.normalize part = .ok p.claimer.partition := by
  induction run generalizing i n p with
  | nil => cases hpc
  | @cons tr s k x w pc run _ st ih =>
    have before : ∀ {p₀ : ClaimPc}, s.pc i = .busy n (.claim p₀) → p.claimer = p₀.claimer →
        ∃ ev ∈ (⟨k, s.pc k, x, pc⟩ :: tr : List (Event (Pc N) (Input N))), ∃ part wk e,
          ev.input = .start n (.claimJobIn part wk) e ∧
          (queues n).pending.normalize part = .ok p.claimer.partition := by
      intro p₀ hpc eq
      obtain ⟨ev, mem, h⟩ := ih hpc
      rw [eq]
      exact ⟨ev, List.mem_cons_of_mem _ mem, h⟩
    rcases s.move_pc k w pc i with ⟨rfl, moved⟩ | ⟨-, moved⟩ <;> rw [moved] at hpc
    · subst hpc
      rcases step_busy st with ⟨c, e, hpc, rfl, poss, hb, rfl⟩ | ⟨o, e, hpc, rfl, g, rfl⟩ |
        ⟨c, c', hpc, rfl, hf, eq, rfl⟩
      · cases hb with
        | claim hn => exact ⟨_, List.mem_cons_self, _, _, e, rfl, hn⟩
      · cases g with
        | claim g => exact before hpc (ClaimPc.claimer_goto g)
      · cases eq
    · exact before hpc rfl

/-! ## What a thread has to do with a job -/

/-- The job a claimer has popped, also while it cancels it. -/
def ClaimPc.handles : ClaimPc → Option JobId
  | .get _ _ j _ | .hset _ j _ _ => some j
  | .cancel _ _ c => some c.job
  | _ => none

lemma ClaimPc.handles_goto {q : WorkQueue} {e : Env} {i : ℕ} {st : Store JobId Val Claim}
    {p p' : ClaimPc} {j : JobId} (h : (p.code q e).outcome i st = .goto p')
    (hj : p'.handles = some j) :
    p.handles = some j ∨
    ∃ a r n, p = .zpopmin a r ∧ Redis.first (st.zsets (q.pending.key a.partition)) = some (j, n) := by
  have inHand : ∀ {p : ClaimPc} {j}, p.inHand = some j → p.handles = some j := by
    intro p j h
    cases p <;> cases h <;> rfl
  cases p' with
  | cancel a r c =>
    refine .inl ?_
    rcases ClaimPc.goto_cancel h with ⟨j', priority, d, rfl, rfl, -⟩ | ⟨c', rfl, g⟩
    · exact hj
    · rw [← hj]
      exact congrArg some (CancelPc.job_goto g).symm
  | get a r j' priority => exact (ClaimPc.inHand_goto h hj).imp inHand id
  | hset a j' priority params => exact (ClaimPc.inHand_goto h hj).imp inHand id
  | _ => cases hj

/-- The queue and the job a thread has popped, returned, or found the claim of. -/
def Pc.handles : Pc N → Option (N × JobId)
  | .busy n (.claim p) => p.handles.map (n, ·)
  | .busy n (.resolve p) => if p.rank = 0 then none else some (n, p.call.jobId)
  | .finished n (.claimed (.ok (some job))) => some (n, job.jobId)
  | _ => none

/-- A job that was returned has just been claimed. -/
lemma step_claimed {i : ℕ} {w w' : World N} {p : Pc N} {x : Input N} {n : N} {job : Job}
    (st : step queues i w p x = some (w', .finished n (.claimed (.ok (some job))))) :
    ∃ a priority params, p = .busy n (.claim (.hset a job.jobId priority params)) := by
  rcases step_cases st with ⟨q, c, e, rfl, rfl, poss, rfl, eq⟩ | ⟨q, o, e, rfl, rfl, rfl, eq⟩ |
    ⟨q, o, rfl, rfl, rfl, eq⟩ | ⟨q, o, rfl, rfl, rfl, eq⟩ | ⟨key, rfl, rfl, mem, rfl, eq⟩
  · cases c with
    | enqueueJobIn part params priority dl =>
      simp only [Call.begin] at eq
      split at eq <;> cases eq
    | claimJobIn part wk =>
      simp only [Call.begin] at eq
      split at eq <;> cases eq
    | resolveJob wk j s r =>
      simp only [Call.begin] at eq
      split at eq <;> cases eq
    | _ => cases eq
  · cases ho : (o.code (queues q) e).outcome i w.store with
    | goto o' =>
      rw [ho] at eq
      cases eq
    | ret r =>
      rw [ho] at eq
      cases eq
      cases o with
      | claim p =>
        obtain ⟨r, hr, eq⟩ := Out.lift_ret ho
        cases eq
        obtain ⟨a, priority, params, rfl⟩ := ClaimPc.ret_some hr
        exact ⟨a, priority, params, rfl⟩
      | _ =>
        obtain ⟨r, hr, eq⟩ := Out.lift_ret ho
        cases eq
  · cases o with
    | checker p => cases p <;> cases eq
    | _ => cases eq
  · cases eq
  · cases eq

/-- A thread comes to handle a job by popping it or by finding its claim. -/
lemma handles_step {i : ℕ} {w w' : World N} {p p' : Pc N} {x : Input N} {n : N} {j : JobId}
    (st : step queues i w p x = some (w', p')) (h : p'.handles = some (n, j)) :
    p.handles = some (n, j) ∨
    (∃ a r m, p = .busy n (.claim (.zpopmin a r)) ∧
      Redis.first (w.store.zsets ((queues n).pending.key a.partition)) = some (j, m)) ∨
    (∃ a c e, p = .busy n (.resolve (.hget a)) ∧ x = .go e ∧ a.jobId = j ∧
      (w.store.hashes (queues n).claimsKey).lookup j = some c) := by
  cases p' with
  | idle => cases h
  | busy n' o' =>
    rcases step_busy st with ⟨c, e, rfl, rfl, poss, hb, rfl⟩ | ⟨o, e, rfl, rfl, g, rfl⟩ |
      ⟨c, c', rfl, rfl, hf, rfl, rfl⟩
    · cases hb <;> cases h
    · cases g with
      | claim g =>
        obtain ⟨j', hj, eq⟩ := Option.map_eq_some_iff.1 h
        cases eq
        rcases ClaimPc.handles_goto g hj with hj | ⟨a, r, m, rfl, hf⟩
        · exact .inl (by simp [Pc.handles, hj])
        · exact .inr (.inl ⟨a, r, m, rfl, hf⟩)
      | @resolve p p' g =>
        simp only [Pc.handles] at h
        split at h <;> cases h
        rw [ResolvePc.call_goto g]
        cases p with
        | hget a =>
          obtain ⟨c, hc⟩ := ResolvePc.hget_goto g
          exact .inr (.inr ⟨a, c, e, rfl, rfl, rfl, hc⟩)
        | _ => exact .inl (by simp [Pc.handles, ResolvePc.rank])
      | _ => cases h
    · cases h
  | finished n' r =>
    have hr : ∃ job, r = .claimed (.ok (some job)) ∧ n' = n ∧ job.jobId = j := by
      simp only [Pc.handles] at h
      split at h
      · cases ‹Pc.finished _ _ = _›
      · cases ‹Pc.finished _ _ = _›
      · rename_i eq
        cases eq
        cases h
        exact ⟨_, rfl, rfl, rfl⟩
      · cases h
    obtain ⟨job, rfl, rfl, rfl⟩ := hr
    obtain ⟨a, priority, params, rfl⟩ := step_claimed st
    exact .inl rfl

/-- The queue and the job whose result a thread is giving to the queue's callback. -/
def Pc.reports : Pc N → Option (N × JobId)
  | .busy n (.resolve (.callback a _)) => some (n, a.jobId)
  | .busy n (.orphans (.callback _ _ j _ _)) => some (n, j)
  | _ => none

/-- `claim_job_in` on a queue only pops, cancels and returns jobs that were enqueued through it, and
its callback is only given the results of such jobs. -/
structure Isolated (queues : N → WorkQueue) (tr : List (Event (Pc N) (Input N)))
    (s : Conf (World N) (Pc N)) : Prop where
  popped : ∀ {i n a r j m}, s.pc i = .busy n (.claim (.zpopmin a r)) →
    Redis.first (s.shared.store.zsets ((queues n).pending.key a.partition)) = some (j, m) →
    OnlyThrough queues tr n j
  cancelled : ∀ {i n a r c}, s.pc i = .busy n (.claim (.cancel a r c)) →
    OnlyThrough queues tr n c.job
  returned : ∀ {i n job}, s.pc i = .finished n (.claimed (.ok (some job))) →
    OnlyThrough queues tr n job.jobId
  reported : ∀ {i n j}, (s.pc i).reports = some (n, j) → OnlyThrough queues tr n j

end General

/-! ## Versions the two queues of one name share -/

/-- Enqueuing, claiming, refreshing, resolving, cancelling and checking, in partitions that are
versions. -/
def Call.versioned : Call → Bool
  | .enqueueJobIn (some _) _ _ _ | .claimJobIn (some _) _ | .reclaimJob _ _ | .resolveJob _ _ _ _
  | .cancelJob _ | .reclaimChecker => true
  | _ => false

/-- The input starts no call but a versioned one. -/
def Input.versioned {N : Type} : Input N → Bool
  | .start _ c _ => c.versioned
  | _ => true

/-- Only versioned calls are made. -/
def Versioned {N : Type} : Cond (World N) (Pc N) (Input N) := fun _ _ _ x => x.versioned = true

/-- The first call enqueues through one queue and the second claims through another queue of the same
name, both at one version that is not the legacy version. -/
def Deployment.crosses (d : Deployment) : Input Service → Input Service → Bool
  | .start n (.enqueueJobIn (some v) _ _ _) _, .start n' (.claimJobIn (some v') _) _ =>
    decide (n ≠ n' ∧ n.queueName = n'.queueName ∧ v = v' ∧ v ≠ d.legacyBase)
  | _, _ => false

/-- A resolve is about to look for the claim of a job that was enqueued through another queue of the
same name. -/
def misdirected (w : World Service) : Pc Service → Bool
  | .busy n (.resolve (.hget a)) =>
    (w.issued.lookup a.jobId).any fun v => decide (v.1 ≠ n ∧ v.1.queueName = n.queueName)
  | _ => false

/-- No version but the legacy one is used to enqueue through one queue and to claim through another
one of the same name, and no resolve looks for a job of the other queue of the same name. -/
def Apart (d : Deployment) : Cond (World Service) (Pc Service) (Input Service) := fun tr s i x =>
  x.versioned = true ∧
  (∀ ev ∈ tr, d.crosses x ev.input = false ∧ d.crosses ev.input x = false) ∧
  ∀ e, x = .go e → misdirected s.shared (s.pc i) = false

/-- A call of thread `i` on queue `n` that takes `m` steps, as a piece of a schedule. -/
def callOn (n : Service) (i : ℕ) (c : Call) (m : ℕ) (e : Env := {}) : List (ℕ × Input Service) :=
  (i, .start n c e) :: List.replicate m (i, .go e)

/-- A deployment to replay schedules on. -/
def testDeployment : Deployment where
  legacyBase := "0.6.7"
  parsesParams := fun _ _ => true
  parsesResult := fun _ _ => true
  legacyBase_ok := by decide

/-- A generation is enqueued at a version the review tool's workers ask for. -/
def crossedSchedule : List (ℕ × Input Service) :=
  callOn .generation 0 (.enqueueJobIn (some "0.6.8") "" .normal 60) 4 ++
  callOn .yamlAnalysis 1 (.claimJobIn (some "0.6.8") "w") 1

/-- A worker of the review tool is about to pop a generation of the lobby. -/
theorem queue_crossed :
    ¬ ∀ tr s, Runs testDeployment.queues Versioned tr s → Isolated testDeployment.queues tr s := by
  intro all
  have asked : ∀ a ∈ crossedSchedule, a.2.versioned = true := by decide
  have run : Runs testDeployment.queues Versioned _ _ :=
    exec_run (l := crossedSchedule) (by decide)
      fun m i x h => asked _ (List.mem_of_getElem? h)
  have at_ : (finalOf (step testDeployment.queues) Conf.initial crossedSchedule).pc 1 =
      .busy .yamlAnalysis (.claim (.zpopmin ⟨some "0.6.8", "w"⟩ 30000000000)) := by
    decide
  have head : Redis.first ((finalOf (step testDeployment.queues) Conf.initial
      crossedSchedule).shared.store.zsets
        ((testDeployment.queues .yamlAnalysis).pending.key (some "0.6.8"))) = some (⟨0⟩, -5) := by
    decide
  have owner : (finalOf (step testDeployment.queues) Conf.initial
      crossedSchedule).shared.issued.lookup ⟨0⟩ = some (.generation, some "0.6.8") := by
    decide
  have through := ((all _ _ run).popped at_ head).2 .generation _ (issued_run run owner)
  cases through

/-! ## Jobs stay in their own queue -/

section

variable {d : Deployment}

/-- No two calls of a run cross. -/
lemma apart_run {tr s} (run : Runs d.queues (Apart d) tr s) {ev ev' : Event (Pc Service) (Input Service)}
    (h : ev ∈ tr) (h' : ev' ∈ tr) : d.crosses ev.input ev'.input = false := by
  have self : ∀ x, d.crosses x x = false := by
    intro x
    cases x with
    | start n c e => cases c <;> simp [Deployment.crosses]
    | _ => rfl
  induction run with
  | nil => cases h
  | cons run cond st ih =>
    rcases List.mem_cons.1 h with rfl | h <;> rcases List.mem_cons.1 h' with rfl | h'
    · exact self _
    · exact (cond.2.1 _ h').1
    · exact (cond.2.1 _ h).2
    · exact ih h h'

/-- Every call of a run is a versioned one. -/
lemma versioned_run {tr s} (run : Runs d.queues (Apart d) tr s)
    {ev : Event (Pc Service) (Input Service)} (h : ev ∈ tr) : ev.input.versioned = true := by
  induction run with
  | nil => cases h
  | cons run cond st ih =>
    rcases List.mem_cons.1 h with rfl | h
    · exact cond.1
    · exact ih h

/-- The job at the head of a claimer's pending set was enqueued through the claimer's queue. -/
lemma popped_issued {tr s} (run : Runs d.queues (Apart d) tr s) {i n a r j m}
    (hpc : s.pc i = .busy n (.claim (.zpopmin a r)))
    (hf : Redis.first (s.shared.store.zsets ((d.queues n).pending.key a.partition)) = some (j, m)) :
    ∃ p, s.shared.issued.lookup j = some (n, p) := by
  obtain ⟨n', p, hl, hk⟩ := (placed_run d.coherent run).pending (Redis.first_mem_key hf)
  obtain ⟨rfl, hc⟩ := d.coherent.ofKey hk
  have same := d.queueName_of_claims hc
  -- the two calls that brought the job and the claimer to this pending set
  obtain ⟨ev, mem, part, params, priority, dl, e, hx, -, hn⟩ := issued_run run hl
  obtain ⟨ev', mem', part', wk, e', hx', hn'⟩ := claim_called run hpc
  have ver := versioned_run run mem
  have ver' := versioned_run run mem'
  have apart := apart_run run mem mem'
  rw [hx] at ver apart
  rw [hx'] at ver' apart
  cases part with
  | none => cases ver
  | some v =>
    cases part' with
    | none => cases ver'
    | some v' =>
      rcases d.normalize_meets same hn' hn with rfl | ⟨rfl, ne⟩
      · exact ⟨_, hl⟩
      · by_cases eq : n' = n
        · subst eq
          exact ⟨_, hl⟩
        · simp [Deployment.crosses, eq, same, ne] at apart

/-- Every job a thread handles was enqueued through the thread's queue. -/
lemma handles_issued {tr s} (run : Runs d.queues (Apart d) tr s) {i n j}
    (h : (s.pc i).handles = some (n, j)) : ∃ p, s.shared.issued.lookup j = some (n, p) := by
  induction run generalizing i with
  | nil => cases h
  | @cons tr s k x w pc run cond st ih =>
    have keep : (∃ p, s.shared.issued.lookup j = some (n, p)) → ∃ p, w.issued.lookup j = some (n, p) :=
      fun ⟨p, hl⟩ => ⟨p, step_issued st hl⟩
    apply keep
    rcases s.move_pc k w pc i with ⟨rfl, moved⟩ | ⟨-, moved⟩ <;> rw [moved] at h
    · rcases handles_step st h with h | ⟨a, r, m, hpc, hf⟩ | ⟨a, c, e, hpc, rfl, rfl, hc⟩
      · exact ih h
      · exact popped_issued run hpc hf
      · -- the claim is one of a queue of this name, and the call is not misdirected
        obtain ⟨n', hl, hk, -⟩ := (placed_run d.coherent run).claims hc
        have same := d.queueName_of_claims hk
        have dir := cond.2.2 e rfl
        rw [hpc] at dir
        by_cases eq : n' = n
        · subst eq
          exact ⟨_, hl⟩
        · simp [misdirected, hl, eq, same] at dir
    · exact ih h

/-- Nobody looks for orphaned results. -/
lemma no_orphans {tr s} (run : Runs d.queues (Apart d) tr s) {i n p} :
    s.pc i ≠ .busy n (.orphans p) := by
  induction run generalizing i p with
  | nil =>
    intro h
    cases h
  | @cons tr s k x w pc run cond st ih =>
    intro hpc
    rcases s.move_pc k w pc i with ⟨rfl, moved⟩ | ⟨-, moved⟩ <;> rw [moved] at hpc
    · subst hpc
      rcases step_busy st with ⟨c, e, hpc, rfl, poss, hb, rfl⟩ | ⟨o, e, hpc, rfl, g, rfl⟩ |
        ⟨c, c', hpc, rfl, hf, eq, rfl⟩
      · cases hb
        cases cond.1
      · cases g
        exact ih hpc
      · cases eq
    · exact ih hpc

/-- In every run that keeps the two queues of one name apart, jobs stay in their own queue. -/
theorem jobs_isolated {tr s} (run : Runs d.queues (Apart d) tr s) : Isolated d.queues tr s where
  popped hpc hf := by
    obtain ⟨p, hl⟩ := popped_issued run hpc hf
    exact onlyThrough_of_issued run hl
  cancelled {i n a r c} hpc := by
    obtain ⟨p, hl⟩ := handles_issued run (i := i) (n := n) (j := c.job) (by rw [hpc]; rfl)
    exact onlyThrough_of_issued run hl
  returned {i n job} hpc := by
    obtain ⟨p, hl⟩ := handles_issued run (i := i) (n := n) (j := job.jobId) (by rw [hpc]; rfl)
    exact onlyThrough_of_issued run hl
  reported {i n j} h := by
    have handled : (s.pc i).handles = some (n, j) := by
      unfold Pc.reports at h
      split at h
      · rename_i hpc
        cases h
        rw [hpc]
        rfl
      · rename_i hpc
        exact absurd hpc (no_orphans run)
      · cases h
    obtain ⟨p, hl⟩ := handles_issued run handled
    exact onlyThrough_of_issued run hl

end

/-- Both queues of one name are used at the legacy version, and a generation is handed out. -/
def legacySchedule : List (ℕ × Input Service) :=
  callOn .yamlAnalysis 0 (.enqueueJobIn (some "0.6.7") "" .high 60) 4 ++
  callOn .generation 1 (.enqueueJobIn (some "0.6.7") "" .normal 60) 3 { fresh := ⟨1⟩ } ++
  callOn .generation 2 (.claimJobIn (some "0.6.7") "w") 4 ++
  callOn .generation 3 (.resolveJob "w" ⟨1⟩ .success none) 3

/-- At the legacy version a worker of the lobby is given the generation and not the analysis, and its
result goes to the lobby's callback. -/
theorem jobs_isolated_legacy :
    ∃ tr s, Runs testDeployment.queues (Apart testDeployment) tr s ∧
      s.pc 2 = .finished .generation (.claimed (.ok (some ⟨⟨1⟩, ""⟩))) ∧
      (s.pc 3).reports = some (.generation, ⟨1⟩) ∧
      Isolated testDeployment.queues tr s := by
  have run : Runs testDeployment.queues (Apart testDeployment)
      (traceOf (step testDeployment.queues) Conf.initial legacySchedule)
      (finalOf (step testDeployment.queues) Conf.initial legacySchedule) := by
    refine exec_run (by decide) ?_
    have meets : ∀ m < 18, (legacySchedule[m]?.all fun a => a.2.versioned &&
        ((traceOf (step testDeployment.queues) Conf.initial (legacySchedule.take m)).all fun ev =>
          !testDeployment.crosses a.2 ev.input && !testDeployment.crosses ev.input a.2) &&
        !misdirected (finalOf (step testDeployment.queues) Conf.initial
          (legacySchedule.take m)).shared
          ((finalOf (step testDeployment.queues) Conf.initial (legacySchedule.take m)).pc a.1)) =
        true := by
      decide
    intro m i x h
    have lt : m < 18 := (List.getElem?_eq_some_iff.1 h).1
    have me := meets m lt
    rw [h] at me
    simp only [Option.all_some, Bool.and_eq_true, List.all_eq_true, Bool.not_eq_true'] at me
    exact ⟨me.1.1, me.1.2, fun e _ => me.2⟩
  exact ⟨_, _, run, by decide, by decide, jobs_isolated run⟩

end ArchipelagoXL.Wq
