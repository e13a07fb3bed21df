import ArchipelagoXL.Wq.Placement
import ArchipelagoXL.Wq.Outline

/-!
# The life of a job

Operations that run one after the other, each to its end (`Sequential`), keep every job in one of the
phases that last: absent, pending in one set, claimed, or resolved. While an operation runs, the
assertion of the point it is at holds; when none runs, every job is settled (`Orderly`).

A phase fixes all that is stored of a job, so in a settled state a job is in at most one of a pending
set, the claims and the results, and `get_job_status`, which looks at three keys one after the other,
gives the phase away (`lifecycle`).
-/

namespace ArchipelagoXL.Wq

open Redis (Instr Cmd Store)
open Interleave

/-- One operation at a time, and each to its end: no step while another thread is in the middle of an
operation, no failures and no crashes. Results are deleted of jobs that are neither pending nor claimed.
Keys may expire at any time. -/
def Sequential (q : WorkQueue) : Cond (World Unit) (Pc Unit) (Input Unit) := fun _ s i x =>
  (∀ k, k ≠ i → (s.pc k).isBusy = false) ∧ x ≠ .fail ∧ x ≠ .crash ∧
  ∀ j e, x = .start () (.deleteJobResult j) e →
    (∀ k, j ∉ s.shared.store.zsets k) ∧ (s.shared.store.hashes q.claimsKey).lookup j = none

section

variable {q : WorkQueue} {name : String}

/-! ## The keys of the store -/

lemma named_run {C : Cond (World Unit) (Pc Unit) (Input Unit)} {tr s}
    (run : Runs (fun _ : Unit => q) C tr s) : Named q s.shared.store := by
  induction run with
  | nil =>
    intro k hk
    exact absurd hk (AList.notMem_empty k)
  | cons run _ st ih =>
    intro k hk
    obtain ⟨v, hv⟩ := Option.isSome_iff_exists.1 (AList.lookup_isSome.2 hk)
    rcases step_strs_gain st hv with hv | ⟨n, a, e, -, -, rfl, -⟩ |
      ⟨n, a, final, cleanup, e, -, -, rfl, -⟩ | ⟨n, a, final, cleanup, e, -, -, rfl, -⟩
    · exact ih k (AList.lookup_isSome.1 (by simp [hv]))
    · exact ⟨a.jobId, .inl rfl⟩
    · exact ⟨a.jobId, .inr (.inl rfl)⟩
    · exact ⟨a.jobId, .inr (.inr rfl)⟩

/-- Only resolved statuses have a time to live. -/
lemma expiring_run {C : Cond (World Unit) (Pc Unit) (Input Unit)} {tr s}
    (run : Runs (fun _ : Unit => q) C tr s) {k : String} (h : k ∈ s.shared.store.expiring) :
    ∃ j, k = q.getResolvedKey j := by
  induction run with
  | nil => cases h
  | cons run _ st ih =>
    rcases step_store st with eq | ⟨n, o, e, -, -, eq⟩ | ⟨key, -, -, eq⟩
    · simp only [Conf.move_shared, eq] at h
      exact ih h
    · simp only [Conf.move_shared, eq] at h
      rcases Redis.mem_expiring_effect h with h | ⟨v, hc⟩
      · exact ih h
      · cases Op.writes_of_eq hc rfl with
        | resolveSetEx => exact ⟨_, rfl⟩
    · simp only [Conf.move_shared, eq] at h
      exact ih h

/-- Nothing is stored of a job before it is given out. -/
lemma absent_run (hb : Built q name) (co : Coherent fun _ : Unit => q)
    {C : Cond (World Unit) (Pc Unit) (Input Unit)} {tr s} (run : Runs (fun _ : Unit => q) C tr s)
    {j : JobId} (h : j ∉ s.shared.issued) : q.view s.shared.store j = Phase.absent.view := by
  have none : s.shared.issued.lookup j = none := AList.lookup_eq_none.2 h
  have placed := placed_run co run
  ext1
  · funext p
    apply AList.lookup_eq_none.2
    intro mem
    obtain ⟨n, p', hl, -⟩ := placed.pending mem
    rw [none] at hl
    cases hl
  · cases hc : (s.shared.store.hashes q.claimsKey).lookup j with
    | none => exact hc
    | some c =>
      obtain ⟨n, hl, -⟩ := placed.claims hc
      rw [none] at hl
      cases hl
  · cases hd : s.shared.store.strs.lookup (q.getJobKey j) with
    | none => exact hd
    | some v =>
      obtain ⟨d, -, hl⟩ := described_run hb co run hd
      rw [none] at hl
      cases hl
  · cases hr : s.shared.store.strs.lookup (q.getResultKey j) with
    | none => exact hr
    | some v =>
      obtain ⟨u, hl⟩ := resulted_run hb co run hr
      rw [none] at hl
      cases hl

/-! ## One operation at a time -/

/-- No operation runs and every job is settled, or one runs and its assertion holds. -/
inductive Orderly (q : WorkQueue) (s : Conf (World Unit) (Pc Unit)) : Prop where
  | quiet : (∀ k, (s.pc k).isBusy = false) → Settled q (q.view s.shared.store) → Orderly q s
  | busy {k o} : s.pc k = .busy () o → (∀ k', k' ≠ k → (s.pc k').isBusy = false) →
    o.asserts q (q.view s.shared.store) → Orderly q s

/-- A call begins with the assertion of its first point. -/
lemma asserts_begin {w : World Unit} {c : Call} {e : Env} {o : Op} (hb : c.Begins q e o)
    (settled : Settled q (q.view w.store)) (poss : c.possible q w e = true)
    (fresh : ∀ {j}, j ∉ w.issued → q.view w.store j = Phase.absent.view)
    (del : ∀ j, c = .deleteJobResult j →
      (∀ k, j ∉ w.store.zsets k) ∧ (w.store.hashes q.claimsKey).lookup j = none) :
    o.asserts q (q.view w.store) := by
  cases hb with
  | enqueue h =>
    simp only [Call.possible, Bool.and_eq_true, decide_eq_true_eq] at poss
    exact ⟨⟨fun j' _ => settled j', .absent, rfl, fresh poss.1, trivial⟩, poss.2⟩
  | resolve h => exact ⟨settled, h, poss⟩
  | @cancel j => exact (settled.focus j).imp fun _ last => .inl last
  | @delete j =>
    obtain ⟨pending, claim⟩ := del j rfl
    refine (settled.focus j).imp ?_
    intro ph holds last
    cases ph with
    | absent => exact .inl rfl
    | resolved d r => exact .inr ⟨d, r, rfl⟩
    | pending d n =>
      have score : (w.store.zsets (q.pending.key d.partition)).lookup j = some n.score := by
        show (q.view w.store j).pending d.partition = some n.score
        rw [holds.view]
        simp [Phase.view]
      exact absurd (AList.lookup_isSome.1 (by rw [score]; rfl)) (pending _)
    | claimed d c =>
      have stored : (w.store.hashes q.claimsKey).lookup j = some c :=
        congrArg JobView.claim holds.view
      rw [claim] at stored
      cases stored
    | _ => cases last
  | _ => exact settled

/-- A step by the only thread at work keeps the order. -/
lemma orderly_next {s : Conf (World Unit) (Pc Unit)} {i : ℕ} {w : World Unit} {n : Next}
    (others : ∀ k, k ≠ i → (s.pc k).isBusy = false)
    (leads : n.leads (Op.asserts q (q.view w.store)) (Settled q (q.view w.store))) :
    Orderly q (s.move i w (n.pc ())) := by
  have still : ∀ k, k ≠ i → ((s.move i w (n.pc ())).pc k).isBusy = false := by
    intro k ne
    rw [Conf.move_pc_of_ne ne]
    exact others k ne
  cases n with
  | goto o => exact .busy (Conf.move_pc_self _ _ _ _) still leads
  | ret r =>
    refine .quiet ?_ leads
    intro k
    by_cases e : k = i
    · subst e
      rw [Conf.move_pc_self]
      rfl
    · exact still k e

/-- Every step keeps the order. -/
lemma orderly_step (hb : Built q name) (co : Coherent fun _ : Unit => q) {tr s}
    (run : Runs (fun _ : Unit => q) (Sequential q) tr s) (inv : Orderly q s) {i : ℕ} {x : Input Unit}
    {w : World Unit} {p : Pc Unit} (cond : Sequential q tr s i x)
    (st : step (fun _ => q) i s.shared (s.pc i) x = some (w, p)) : Orderly q (s.move i w p) := by
  obtain ⟨others, noFail, noCrash, del⟩ := cond
  have settled : (s.pc i).isBusy = false → Settled q (q.view s.shared.store) := by
    intro idle
    cases inv with
    | quiet _ settled => exact settled
    | @busy k o hpc _ _ =>
      -- nobody is busy: the stepping thread is idle and the others are not at work
      have free : (s.pc k).isBusy = false := by
        by_cases e : k = i
        · subst e
          exact idle
        · exact others k e
      rw [hpc] at free
      cases free
  rcases step_cases st with ⟨⟨⟩, c, e, hpc, rfl, poss, rfl, rfl⟩ | ⟨⟨⟩, o, e, hpc, rfl, rfl, rfl⟩ |
    ⟨_, _, _, rfl, -⟩ | ⟨_, _, _, rfl, -⟩ | ⟨key, hpc, rfl, mem, rfl, rfl⟩
  · -- a call begins
    have all := settled (by rw [hpc]; rfl)
    refine orderly_next others ?_
    rw [World.issue_store]
    cases hn : c.begin q e with
    | goto o =>
      exact asserts_begin (Call.begins hn) all poss (absent_run hb co run)
        fun j eq => del j e (by rw [eq])
    | ret r => exact all
  · -- the operation at work takes a step
    refine orderly_next others ?_
    have asserts : o.asserts q (q.view s.shared.store) := by
      cases inv with
      | quiet free _ =>
        have idle := free i
        rw [hpc] at idle
        cases idle
      | @busy k o' hpc' _ asserts =>
        by_cases e : k = i
        · subst e
          rw [hpc] at hpc'
          cases hpc'
          exact asserts
        · have free := others k e
          rw [hpc'] at free
          cases free
    exact Op.asserts_next hb (named_run run) asserts
  · exact absurd rfl noFail
  · exact absurd rfl noCrash
  · -- a resolved status expires
    have all := settled (by rw [hpc]; rfl)
    obtain ⟨j, rfl⟩ := expiring_run run mem
    refine .quiet ?_ ?_
    · intro k
      by_cases e : k = i
      · subst e
        rw [Conf.move_pc_self]
        rfl
      · rw [Conf.move_pc_of_ne e]
        exact others k e
    · have same : q.view ((Cmd.del (q.getResolvedKey j)).effect i s.shared.store) =
          q.view s.shared.store :=
        view_delOther (fun j' => hb.jobKey_ne_resolvedKey j' j)
          (fun j' => hb.resultKey_ne_resolvedKey j' j)
      show Settled q (q.view ((Cmd.del (q.getResolvedKey j)).effect i s.shared.store))
      rw [same]
      exact all

/-- Sequential runs are orderly. -/
theorem orderly_run (hb : Built q name) (co : Coherent fun _ : Unit => q) {tr s}
    (run : Runs (fun _ : Unit => q) (Sequential q) tr s) : Orderly q s := by
  induction run with
  | nil =>
    refine .quiet (fun k => rfl) ?_
    intro j
    exact ⟨.absent, rfl, rfl, trivial⟩
  | cons run cond st ih => exact orderly_step hb co run ih cond st

/-! ## Asking for a job's status -/

/-- The answer `get_job_status` gives for a job in a phase that lasts. -/
def Phase.status : Phase → Option JobStatus
  | .pending _ _ => some .pending
  | .claimed _ _ => some .running
  | .resolved _ r => some r.status
  | .absent | .described _ | .requeued _ _ | .stripped _ => none

/-- The inputs of a thread that asks for the job's status. -/
def asks (j : JobId) (_ : Conf (World Unit) (Pc Unit)) (x : Input Unit) : Prop :=
  (∃ e, x = .start () (.getJobStatus j) e) ∨ ∃ e, x = .go e

/-- One command of `get_job_status`. -/
lemma status_go {s : Conf (World Unit) (Pc Unit)} {i : ℕ} {j : JobId} {p : StatusPc}
    {Q : Conf (World Unit) (Pc Unit) → Prop} (hp : s.pc i = .busy () (.status p))
    (next : ∀ s' : Conf (World Unit) (Pc Unit),
      s'.pc i = (((p.code q).outcome i s.shared.store).lift .status .status).pc () →
      s'.shared.store = s.shared.store → Inevitable (step fun _ => q) (asks j) i Q s') :
    Inevitable (step fun _ => q) (asks j) i Q s := by
  obtain ⟨r, can⟩ : ∃ r, step (fun _ => q) i s.shared (s.pc i) (.go {}) = some r := by
    rw [hp]
    exact ⟨_, rfl⟩
  refine .later (.inr ⟨{}, rfl⟩) can ?_
  intro x w p' hx st
  rw [hp] at st
  rcases hx with ⟨e, rfl⟩ | ⟨e, rfl⟩
  · cases st
  · obtain ⟨rfl, rfl⟩ := step_go st
    refine next _ (Conf.move_pc_self _ _ _ _) ?_
    cases p <;> rfl

/-- Run alone, `get_job_status` gives away the phase and changes nothing. -/
lemma status_returns {s : Conf (World Unit) (Pc Unit)} {i : ℕ} {j : JobId} {ph : Phase}
    (idle : s.pc i = .idle) (holds : Holds q (q.view s.shared.store) j ph)
    (last : ph.settled = true) :
    Inevitable (step fun _ => q) (asks j) i
      (fun s' => s'.pc i = .finished () (.status (.ok ph.status)) ∧
        s'.shared.store = s.shared.store) s := by
  have result : s.shared.store.strs.lookup (q.getResultKey j) = ph.view.result :=
    congrArg JobView.result holds.view
  have claim : (s.shared.store.hashes q.claimsKey).lookup j = ph.view.claim :=
    congrArg JobView.claim holds.view
  have desc : s.shared.store.strs.lookup (q.getJobKey j) = ph.view.desc :=
    congrArg JobView.desc holds.view
  obtain ⟨r, can⟩ : ∃ r, step (fun _ => q) i s.shared (s.pc i) (.start () (.getJobStatus j) {}) =
      some r := by
    rw [idle]
    exact ⟨_, rfl⟩
  refine .later (.inl ⟨{}, rfl⟩) can ?_
  intro x w p hx st
  rw [idle] at st
  rcases hx with ⟨e, rfl⟩ | ⟨e, rfl⟩
  · cases st
    -- `EXISTS` of the result, `HEXISTS` of the claim, `EXISTS` of the job
    refine status_go (Conf.move_pc_self _ _ _ _) ?_
    intro s₁ at₁ store₁
    refine status_go at₁ ?_
    intro s₂ at₂ store₂
    refine status_go at₂ ?_
    intro s₃ at₃ store₃
    have same : s₃.shared.store = s.shared.store := (store₃.trans store₂).trans store₁
    rw [store₂, store₁] at at₃
    have checked : s₃.pc i = (Out.lift .status .status
        (if ph.view.result.isSome then
          .goto (.getResult j ph.view.claim.isSome ph.view.desc.isSome)
        else .ret (.ok (unresolvedStatus ph.view.claim.isSome ph.view.desc.isSome)))).pc () := by
      rw [at₃, ← result, ← claim, ← desc]
      rfl
    cases ph with
    | absent => exact .now ⟨checked, same⟩
    | pending d n => exact .now ⟨checked, same⟩
    | claimed d c => exact .now ⟨checked, same⟩
    | resolved d r =>
      refine status_go checked ?_
      intro s₄ at₄ store₄
      refine .now ⟨?_, store₄.trans same⟩
      rw [at₄, same]
      have read : q.readResult (s.shared.store.strs.lookup (q.getResultKey j)) = .ok (some r) := by
        rw [result]
        simp [Phase.view, WorkQueue.readResult, holds.valid.2.2]
      simp [StatusPc.code, Instr.outcome, Cmd.reply, read, Out.lift, Next.pc, Phase.status]
    | _ => cases last
  · cases st

/-! ## Where a job is -/

/-- The job is in a pending set. -/
def IsPending (st : Store JobId Val Claim) (j : JobId) : Prop := ∃ k, j ∈ st.zsets k

/-- The job has a claim. -/
def IsClaimed (q : WorkQueue) (st : Store JobId Val Claim) (j : JobId) : Prop :=
  ∃ c, (st.hashes q.claimsKey).lookup j = some c

/-- The job has a stored result. -/
def HasResult (q : WorkQueue) (st : Store JobId Val Claim) (j : JobId) : Prop :=
  ∃ v, st.strs.lookup (q.getResultKey j) = some v

/-- The job is in at most one of exactly one pending set, the claims and the results; pending or
claimed it has a description, and its claim has the partition of its description. -/
structure InOnePlace (q : WorkQueue) (st : Store JobId Val Claim) (j : JobId) : Prop where
  oneSet : ∀ {k k'}, j ∈ st.zsets k → j ∈ st.zsets k' → k = k'
  notClaimed : IsPending st j → ¬ IsClaimed q st j
  notPending : HasResult q st j → ¬ IsPending st j
  notBoth : HasResult q st j → ¬ IsClaimed q st j
  described : IsPending st j ∨ IsClaimed q st j →
    ∃ d, st.strs.lookup (q.getJobKey j) = some (.desc d)
  partition : ∀ {c d}, (st.hashes q.claimsKey).lookup j = some c →
    st.strs.lookup (q.getJobKey j) = some (.desc d) → c.partition = d.partition

/-- The answer to `get_job_status` says where the job is. -/
structure Informs (q : WorkQueue) (st : Store JobId Val Claim) (j : JobId) (answer : Option JobStatus) :
    Prop where
  pending : answer = some .pending ↔ IsPending st j
  running : answer = some .running ↔ IsClaimed q st j
  resolved : ∀ {status}, status.isResolved = true → (answer = some status ↔
    ∃ r, st.strs.lookup (q.getResultKey j) = some (.result r) ∧ r.status = status)
  unknown : answer = none ↔ ¬ IsPending st j ∧ ¬ IsClaimed q st j ∧ ¬ HasResult q st j

/-- A job that is in a phase that lasts is in a pending set if and only if that is its phase. -/
lemma isPending_iff {s : Conf (World Unit) (Pc Unit)} (placed : Placed (fun _ : Unit => q) s)
    {j : JobId} {ph : Phase} (holds : Holds q (q.view s.shared.store) j ph)
    (last : ph.settled = true) : IsPending s.shared.store j ↔ ∃ d n, ph = .pending d n := by
  have score : ∀ p, (s.shared.store.zsets (q.pending.key p)).lookup j = ph.view.pending p :=
    fun p => congrFun (congrArg JobView.pending holds.view) p
  constructor
  · rintro ⟨k, mem⟩
    obtain ⟨⟨⟩, p, -, rfl⟩ := placed.pending mem
    have some_ := AList.lookup_isSome.2 mem
    rw [score] at some_
    cases ph with
    | pending d n => exact ⟨d, n, rfl⟩
    | requeued d c => cases last
    | _ => cases some_
  · rintro ⟨d, n, rfl⟩
    refine ⟨q.pending.key d.partition, AList.lookup_isSome.1 ?_⟩
    rw [score]
    simp [Phase.view]

lemma isClaimed_iff {st : Store JobId Val Claim} {j : JobId} {ph : Phase}
    (holds : Holds q (q.view st) j ph) (last : ph.settled = true) :
    IsClaimed q st j ↔ ∃ d c, ph = .claimed d c := by
  have claim : (st.hashes q.claimsKey).lookup j = ph.view.claim := congrArg JobView.claim holds.view
  unfold IsClaimed
  rw [claim]
  cases ph with
  | claimed d c => exact ⟨fun _ => ⟨d, c, rfl⟩, fun _ => ⟨c, rfl⟩⟩
  | requeued d c => cases last
  | stripped c => cases last
  | _ => simp [Phase.view]

lemma hasResult_iff {st : Store JobId Val Claim} {j : JobId} {ph : Phase}
    (holds : Holds q (q.view st) j ph) : HasResult q st j ↔ ∃ d r, ph = .resolved d r := by
  have result : st.strs.lookup (q.getResultKey j) = ph.view.result :=
    congrArg JobView.result holds.view
  unfold HasResult
  rw [result]
  cases ph with
  | resolved d r => exact ⟨fun _ => ⟨d, r, rfl⟩, fun _ => ⟨_, rfl⟩⟩
  | _ => simp [Phase.view]

/-- A job in a phase that lasts is in one place. -/
lemma inOnePlace {s : Conf (World Unit) (Pc Unit)} (placed : Placed (fun _ : Unit => q) s)
    {j : JobId} {ph : Phase} (holds : Holds q (q.view s.shared.store) j ph)
    (last : ph.settled = true) : InOnePlace q s.shared.store j := by
  have pending := isPending_iff placed holds last
  have claimed := isClaimed_iff holds last
  have result := hasResult_iff holds
  have desc : s.shared.store.strs.lookup (q.getJobKey j) = ph.view.desc :=
    congrArg JobView.desc holds.view
  refine ⟨?_, ?_, ?_, ?_, ?_, ?_⟩
  · intro k k' mem mem'
    obtain ⟨n, p, hl, rfl⟩ := placed.pending mem
    exact (placed.key_of_pending hl mem').symm
  · intro h h'
    obtain ⟨d, n, rfl⟩ := pending.1 h
    obtain ⟨_, _, eq⟩ := claimed.1 h'
    cases eq
  · intro h h'
    obtain ⟨d, r, rfl⟩ := result.1 h
    obtain ⟨_, _, eq⟩ := pending.1 h'
    cases eq
  · intro h h'
    obtain ⟨d, r, rfl⟩ := result.1 h
    obtain ⟨_, _, eq⟩ := claimed.1 h'
    cases eq
  · intro h
    rw [desc]
    rcases h with h | h
    · obtain ⟨d, n, rfl⟩ := pending.1 h
      exact ⟨d, rfl⟩
    · obtain ⟨d, c, rfl⟩ := claimed.1 h
      exact ⟨d, rfl⟩
  · intro c d hc hd
    obtain ⟨d', c', rfl⟩ := claimed.1 ⟨c, hc⟩
    have claim : (s.shared.store.hashes q.claimsKey).lookup j = some c' :=
      congrArg JobView.claim holds.view
    rw [hc] at claim
    rw [hd] at desc
    cases claim
    cases desc
    exact holds.valid.2.2

/-- The status of a job's phase says where the job is. -/
lemma informs {s : Conf (World Unit) (Pc Unit)} (placed : Placed (fun _ : Unit => q) s)
    {j : JobId} {ph : Phase} (holds : Holds q (q.view s.shared.store) j ph)
    (last : ph.settled = true) : Informs q s.shared.store j ph.status := by
  have resolved : ∀ {d r}, ph = .resolved d r → r.status.isResolved = true := by
    rintro d r rfl
    exact holds.valid.2.1
  have result : s.shared.store.strs.lookup (q.getResultKey j) = ph.view.result :=
    congrArg JobView.result holds.view
  refine ⟨?_, ?_, ?_, ?_⟩
  · rw [isPending_iff placed holds last]
    cases ph with
    | pending d n => simp [Phase.status]
    | resolved d r =>
      have := resolved rfl
      cases hs : r.status <;> simp_all [Phase.status, JobStatus.isResolved]
    | _ => simp [Phase.status]
  · rw [isClaimed_iff holds last]
    cases ph with
    | claimed d c => simp [Phase.status]
    | resolved d r =>
      have := resolved rfl
      cases hs : r.status <;> simp_all [Phase.status, JobStatus.isResolved]
    | _ => simp [Phase.status]
  · intro status hs
    rw [result]
    cases ph with
    | resolved d r => simp [Phase.status, Phase.view]
    | pending d n => cases status <;> simp_all [Phase.status, Phase.view, JobStatus.isResolved]
    | claimed d c => cases status <;> simp_all [Phase.status, Phase.view, JobStatus.isResolved]
    | _ => simp [Phase.status, Phase.view]
  · rw [isPending_iff placed holds last, isClaimed_iff holds last, hasResult_iff holds]
    cases ph with
    | absent => simp [Phase.status]
    | pending d n => simp [Phase.status]
    | claimed d c => simp [Phase.status]
    | resolved d r => simp [Phase.status]
    | _ => cases last

end

/-- The life of a job. After any sequence of operations, one after the other and each to its end, every
job is in at most one of exactly one pending set, the claims and the results, with a description while
it is pending or claimed; and `get_job_status` tells which. -/
theorem lifecycle {b : WorkQueueBuilder} {q : WorkQueue} (hq : b.build = .ok q) {tr s}
    (run : Runs (fun _ : Unit => q) (Sequential q) tr s) (quiet : ∀ k, (s.pc k).isBusy = false)
    (j : JobId) :
    InOnePlace q s.shared.store j ∧
    ∃ answer, Informs q s.shared.store j answer ∧
      ∀ i, s.pc i = .idle → Inevitable (step fun _ => q) (asks j) i
        (fun s' => s'.pc i = .finished () (.status (.ok answer)) ∧
          s'.shared.store = s.shared.store) s := by
  have built := WorkQueueBuilder.build_built hq
  have co := coherent_one hq
  have placed := placed_run co run
  cases orderly_run built co run with
  | quiet _ settled =>
    obtain ⟨ph, last, holds⟩ := settled j
    exact ⟨inOnePlace placed holds last, ph.status, informs placed holds last,
      fun i idle => status_returns idle holds last⟩
  | @busy k o hpc _ _ =>
    have idle := quiet k
    rw [hpc] at idle
    cases idle

/-- A job is enqueued, claimed, resolved and cancelled, and a second one is claimed after its deadline
and a third one handed out in its place. -/
def lifeSchedule : List (ℕ × Input Unit) :=
  callOf 0 (.enqueueJobIn none "" .high 60) 3 ++ callOf 1 (.claimJobIn none "w") 4 ++
  callOf 2 (.resolveJob "w" ⟨0⟩ .success none) 7 ++ callOf 3 (.cancelJob ⟨0⟩) 4 ++
  callOf 4 (.enqueueJobIn none "" .high 60) 3 { fresh := ⟨1⟩ } ++
  callOf 5 (.enqueueJobIn none "" .low 600) 3 { fresh := ⟨2⟩ } ++
  callOf 6 (.claimJobIn none "w") 10 { now := 100 }

/-- A sequential run, and where its jobs are in the end. -/
theorem lifecycle_run :
    ∃ tr s, Runs (fun _ : Unit => testQueue.queue) (Sequential testQueue.queue) tr s ∧
      s.pc 6 = .finished () (.claimed (.ok (some ⟨⟨2⟩, ""⟩))) ∧
      HasResult testQueue.queue s.shared.store ⟨0⟩ ∧ IsClaimed testQueue.queue s.shared.store ⟨2⟩ ∧
      ∀ j, InOnePlace testQueue.queue s.shared.store j := by
  have alone : ∀ m ≤ 41, ∀ k, (lifeSchedule[m]?.all fun a => k ≠ a.1) = true →
      ((finalOf testMachine Conf.initial (lifeSchedule.take m)).pc k).isBusy = false := by
    intro m le
    apply finalOf_forall (P := fun k (p : Pc Unit) =>
      (lifeSchedule[m]?.all fun a => k ≠ a.1) = true → p.isBusy = false) (b := 7)
    · intro k _
      rfl
    · revert m
      decide
    · revert m
      decide
  have whole : lifeSchedule.length = 41 := by decide
  have run : Runs (fun _ : Unit => testQueue.queue) (Sequential testQueue.queue)
      (traceOf testMachine Conf.initial lifeSchedule)
      (finalOf testMachine Conf.initial lifeSchedule) := by
    refine exec_run (by decide) ?_
    intro m i x h
    have lt : m < 41 := whole ▸ (List.getElem?_eq_some_iff.1 h).1
    have mem := List.mem_of_getElem? h
    have plain : ∀ a ∈ lifeSchedule, a.2 ≠ .fail ∧ a.2 ≠ .crash := by decide
    have keeps : ∀ a ∈ lifeSchedule, ∀ j e, a.2 ≠ .start () (.deleteJobResult j) e := by
      simp [lifeSchedule, callOf]
    refine ⟨?_, (plain _ mem).1, (plain _ mem).2, fun j e eq => absurd eq (keeps _ mem j e)⟩
    intro k ne
    apply alone m (Nat.le_of_lt lt) k
    rw [h]
    simpa using ne
  have quiet : ∀ k, ((finalOf testMachine Conf.initial lifeSchedule).pc k).isBusy = false := by
    intro k
    have done := alone 41 (Nat.le_refl _) k
    rw [List.take_of_length_le (Nat.le_of_eq whole)] at done
    apply done
    rw [List.getElem?_eq_none (Nat.le_of_eq whole)]
    rfl
  have stored : ((finalOf testMachine Conf.initial lifeSchedule).shared.store.strs.lookup
      (testQueue.queue.getResultKey ⟨0⟩)) = some (.result ⟨.success, none⟩) := by
    decide
  have claim : ((finalOf testMachine Conf.initial lifeSchedule).shared.store.hashes
      testQueue.queue.claimsKey).lookup ⟨2⟩ = some ⟨⟨2⟩, .low, "w", 100, none⟩ := by
    decide
  exact ⟨_, _, run, by decide, ⟨_, stored⟩, ⟨_, claim⟩, fun j =>
    (lifecycle (b := testQueue) (q := testQueue.queue) rfl run quiet j).1⟩

end ArchipelagoXL.Wq
