import ArchipelagoXL.Wq.Machine

/-!
# The phases of a job

What the store says of one job is spread over the pending sets, the claims and two string keys;
`WorkQueue.view` collects it. A command of the queue changes the view of at most one job (the lemmas
`view_set`, `view_zadd`, …). The abstract life of a job is a sequence of phases: absent, pending,
claimed, resolved, and between them what an operation leaves for a moment while it moves a job from one
to the other. Each phase is one exact view, so a job cannot be in two phases at once.

`Settled` says that every job is in one of the phases that last, `Focus` that every job but one is.
-/

namespace ArchipelagoXL.Wq

open Redis (Instr Cmd Store)

/-- What the store says of a job: its score in each pending set, its claim, and what is stored as its
description and its result. -/
@[ext] structure JobView where
  pending : Option String → Option ℤ
  claim : Option Claim
  desc : Option Val
  result : Option Val

/-- What the store says of a job. -/
def WorkQueue.view (q : WorkQueue) (st : Store JobId Val Claim) (j : JobId) : JobView where
  pending := fun p => (st.zsets (q.pending.key p)).lookup j
  claim := (st.hashes q.claimsKey).lookup j
  desc := st.strs.lookup (q.getJobKey j)
  result := st.strs.lookup (q.getResultKey j)

/-! ## What the commands do to a view -/

section View

variable {q : WorkQueue} {name : String} {i : ℕ} {st : Store JobId Val Claim}

/-- A command that changes no data changes no view. -/
lemma view_of_changesData {c : Cmd JobId Val Claim} (h : changesData c = false) :
    q.view (c.effect i st) = q.view st := by
  cases c <;> first | rfl | cases h

/-- What is stored under the key of a job's description is only seen in that job's view. -/
lemma view_of_job (hb : Built q name) {st' : Store JobId Val Claim} {j : JobId} {o : Option Val}
    (zsets : st'.zsets = st.zsets) (hashes : st'.hashes = st.hashes)
    (at_ : st'.strs.lookup (q.getJobKey j) = o)
    (other : ∀ {k}, k ≠ q.getJobKey j → st'.strs.lookup k = st.strs.lookup k) :
    q.view st' = Function.update (q.view st) j { q.view st j with desc := o } := by
  have result : ∀ j', st'.strs.lookup (q.getResultKey j') = st.strs.lookup (q.getResultKey j') :=
    fun j' => other (hb.jobKey_ne_resultKey j j').symm
  funext j'
  by_cases e : j' = j
  · subst e
    simp [WorkQueue.view, zsets, hashes, at_, result]
  · have desc := other fun h => e (hb.jobKey_inj h)
    simp [WorkQueue.view, zsets, hashes, e, desc, result]

/-- What is stored under the key of a job's result is only seen in that job's view. -/
lemma view_of_result (hb : Built q name) {st' : Store JobId Val Claim} {j : JobId} {o : Option Val}
    (zsets : st'.zsets = st.zsets) (hashes : st'.hashes = st.hashes)
    (at_ : st'.strs.lookup (q.getResultKey j) = o)
    (other : ∀ {k}, k ≠ q.getResultKey j → st'.strs.lookup k = st.strs.lookup k) :
    q.view st' = Function.update (q.view st) j { q.view st j with result := o } := by
  have desc : ∀ j', st'.strs.lookup (q.getJobKey j') = st.strs.lookup (q.getJobKey j') :=
    fun j' => other (hb.jobKey_ne_resultKey j' j)
  funext j'
  by_cases e : j' = j
  · subst e
    simp [WorkQueue.view, zsets, hashes, at_, desc]
  · have result := other fun h => e (hb.resultKey_inj h)
    simp [WorkQueue.view, zsets, hashes, e, desc, result]

/-- A job's place in a pending set is only seen in that job's view. -/
lemma view_of_zset (hb : Built q name) {st' : Store JobId Val Claim} {p : Option String} {j : JobId}
    {o : Option ℤ} (strs : st'.strs = st.strs) (hashes : st'.hashes = st.hashes)
    (at_ : (st'.zsets (q.pending.key p)).lookup j = o)
    (member : ∀ {j'}, j' ≠ j →
      (st'.zsets (q.pending.key p)).lookup j' = (st.zsets (q.pending.key p)).lookup j')
    (other : ∀ {k}, k ≠ q.pending.key p → st'.zsets k = st.zsets k) :
    q.view st' = Function.update (q.view st) j
      { q.view st j with pending := Function.update (q.view st j).pending p o } := by
  have set : ∀ {p'}, p' ≠ p → st'.zsets (q.pending.key p') = st.zsets (q.pending.key p') :=
    fun ne => other fun h => ne (hb.key_inj h)
  funext j'
  by_cases e : j' = j
  · subst e
    rw [Function.update_self]
    ext1
    · funext p'
      by_cases ep : p' = p
      · subst ep
        simp [WorkQueue.view, at_]
      · simp [WorkQueue.view, ep, set ep]
    · simp [WorkQueue.view, hashes]
    · simp [WorkQueue.view, strs]
    · simp [WorkQueue.view, strs]
  · rw [Function.update_of_ne e]
    ext1
    · funext p'
      by_cases ep : p' = p
      · subst ep
        exact member e
      · simp [WorkQueue.view, set ep]
    · simp [WorkQueue.view, hashes]
    · simp [WorkQueue.view, strs]
    · simp [WorkQueue.view, strs]

lemma view_setJob (hb : Built q name) (j : JobId) (v : Val) :
    q.view ((Cmd.set (q.getJobKey j) v).effect i st) =
      Function.update (q.view st) j { q.view st j with desc := some v } :=
  view_of_job hb rfl rfl (AList.lookup_insert _) fun ne => AList.lookup_insert_ne ne

lemma view_setResult (hb : Built q name) (j : JobId) (v : Val) :
    q.view ((Cmd.set (q.getResultKey j) v).effect i st) =
      Function.update (q.view st) j { q.view st j with result := some v } :=
  view_of_result hb rfl rfl (AList.lookup_insert _) fun ne => AList.lookup_insert_ne ne

lemma view_delJob (hb : Built q name) (j : JobId) :
    q.view ((Cmd.del (q.getJobKey j)).effect i st) =
      Function.update (q.view st) j { q.view st j with desc := none } :=
  view_of_job hb rfl rfl (AList.lookup_erase _ _) fun ne => AList.lookup_erase_ne ne

lemma view_delResult (hb : Built q name) (j : JobId) :
    q.view ((Cmd.del (q.getResultKey j)).effect i st) =
      Function.update (q.view st) j { q.view st j with result := none } :=
  view_of_result hb rfl rfl (AList.lookup_erase _ _) fun ne => AList.lookup_erase_ne ne

lemma view_setEx (hb : Built q name) (j : JobId) (v : Val) :
    q.view ((Cmd.setEx (q.getResolvedKey j) v).effect i st) = q.view st := by
  funext j'
  simp [WorkQueue.view, AList.lookup_insert_ne (hb.jobKey_ne_resolvedKey j' j),
    AList.lookup_insert_ne (hb.resultKey_ne_resolvedKey j' j)]

/-- Deleting a key that is no job's description and no job's result. -/
lemma view_delOther {key : String} (hj : ∀ j, q.getJobKey j ≠ key) (hr : ∀ j, q.getResultKey j ≠ key) :
    q.view ((Cmd.del key).effect i st) = q.view st := by
  funext j
  simp [WorkQueue.view, AList.lookup_erase_ne (hj j), AList.lookup_erase_ne (hr j)]

lemma view_hset (j : JobId) (c : Claim) :
    q.view ((Cmd.hset q.claimsKey j c).effect i st) =
      Function.update (q.view st) j { q.view st j with claim := some c } := by
  funext j'
  by_cases e : j' = j
  · subst e
    simp [WorkQueue.view]
  · simp [WorkQueue.view, e, AList.lookup_insert_ne e]

lemma view_hdel (j : JobId) :
    q.view ((Cmd.hdel q.claimsKey j).effect i st) =
      Function.update (q.view st) j { q.view st j with claim := none } := by
  funext j'
  by_cases e : j' = j
  · subst e
    simp [WorkQueue.view]
  · simp [WorkQueue.view, e, AList.lookup_erase_ne e]

lemma view_zadd (hb : Built q name) (p : Option String) (j : JobId) (n : ℤ) :
    q.view ((Cmd.zadd (q.pending.key p) j n).effect i st) =
      Function.update (q.view st) j
        { q.view st j with pending := Function.update (q.view st j).pending p (some n) } := by
  refine view_of_zset hb rfl rfl ?_ ?_ ?_
  · simp
  · intro j' ne
    simp [AList.lookup_insert_ne ne]
  · intro k ne
    simp [ne]

lemma view_zrem (hb : Built q name) (p : Option String) (j : JobId) :
    q.view ((Cmd.zrem (q.pending.key p) j).effect i st) =
      Function.update (q.view st) j
        { q.view st j with pending := Function.update (q.view st j).pending p none } := by
  refine view_of_zset hb rfl rfl ?_ ?_ ?_
  · simp
  · intro j' ne
    simp [AList.lookup_erase_ne ne]
  · intro k ne
    simp [ne]

lemma view_zpopmin_none {p : Option String} (h : Redis.first (st.zsets (q.pending.key p)) = none) :
    q.view ((Cmd.zpopmin (q.pending.key p)).effect i st) = q.view st := by
  rw [Redis.effect_zpopmin_none h]

lemma view_zpopmin (hb : Built q name) {p : Option String} {j : JobId} {n : ℤ}
    (h : Redis.first (st.zsets (q.pending.key p)) = some (j, n)) :
    q.view ((Cmd.zpopmin (q.pending.key p)).effect i st) =
      Function.update (q.view st) j
        { q.view st j with pending := Function.update (q.view st j).pending p none } := by
  rw [Redis.effect_zpopmin_some h]
  exact view_zrem hb p j

end View

/-! ## Phases -/

/-- Where a job is in its life. -/
inductive Phase where
  | absent
  /-- Described, and neither pending nor claimed: on its way from one phase to another. -/
  | described (d : JobDesc)
  | pending (d : JobDesc) (priority : Priority)
  | claimed (d : JobDesc) (c : Claim)
  /-- Back in its pending set while its claim is still there. -/
  | requeued (d : JobDesc) (c : Claim)
  /-- Claimed, the description being gone already. -/
  | stripped (c : Claim)
  | resolved (d : Option JobDesc) (r : JobResult)

namespace Phase

/-- The view of a job in a phase. -/
def view : Phase → JobView
  | .absent => ⟨fun _ => none, none, none, none⟩
  | .described d => ⟨fun _ => none, none, some (.desc d), none⟩
  | .pending d priority =>
    ⟨Function.update (fun _ => none) d.partition (some priority.score), none, some (.desc d), none⟩
  | .claimed d c => ⟨fun _ => none, some c, some (.desc d), none⟩
  | .requeued d c =>
    ⟨Function.update (fun _ => none) d.partition (some c.priority.score), some c, some (.desc d), none⟩
  | .stripped c => ⟨fun _ => none, some c, none, none⟩
  | .resolved d r => ⟨fun _ => none, none, d.map .desc, some (.result r)⟩

/-- The phases a job is in while no operation is at work on it. -/
def settled : Phase → Bool
  | .absent | .pending _ _ | .claimed _ _ | .resolved _ _ => true
  | .described _ | .requeued _ _ | .stripped _ => false

/-- The data of a phase is what the queue writes for the job: it can be read back, a claim names the job
and the partition of the description, and a result has a status that resolves a job. -/
def Valid (q : WorkQueue) (j : JobId) : Phase → Prop
  | .absent | .stripped _ => True
  | .described d | .pending d _ => q.parsesParams d.params = true
  | .claimed d c | .requeued d c =>
    q.parsesParams d.params = true ∧ c.jobId = j ∧ c.partition = d.partition
  | .resolved d r => (∀ d', d = some d' → q.parsesParams d'.params = true) ∧
    r.status.isResolved = true ∧ r.result.all q.parsesResult = true

end Phase

/-- The job is in the phase. -/
structure Holds (q : WorkQueue) (V : JobId → JobView) (j : JobId) (ph : Phase) : Prop where
  view : V j = ph.view
  valid : ph.Valid q j

/-- Every job is in a phase that lasts. -/
def Settled (q : WorkQueue) (V : JobId → JobView) : Prop :=
  ∀ j, ∃ ph, ph.settled = true ∧ Holds q V j ph

/-- Every job but `j` is in a phase that lasts, and `j` is in one with `P`. -/
structure Focus (q : WorkQueue) (V : JobId → JobView) (j : JobId) (P : Phase → Prop) : Prop where
  others : ∀ j', j' ≠ j → ∃ ph, ph.settled = true ∧ Holds q V j' ph
  self : ∃ ph, P ph ∧ Holds q V j ph

section Focus

variable {q : WorkQueue} {V : JobId → JobView} {j : JobId} {P R : Phase → Prop}

/-- An operation turns to a job. -/
lemma Settled.focus (h : Settled q V) (j : JobId) : Focus q V j fun ph => ph.settled = true :=
  ⟨fun j' _ => h j', h j⟩

/-- An operation leaves a job behind. -/
lemma Focus.settled (h : Focus q V j P) (hP : ∀ {ph}, P ph → ph.settled = true) : Settled q V := by
  intro j'
  by_cases e : j' = j
  · subst e
    obtain ⟨ph, hp, holds⟩ := h.self
    exact ⟨ph, hP hp, holds⟩
  · exact h.others j' e

lemma Focus.imp (h : Focus q V j P) (hP : ∀ {ph}, Holds q V j ph → P ph → R ph) :
    Focus q V j R := by
  obtain ⟨ph, hp, holds⟩ := h.self
  exact ⟨h.others, ph, hP holds hp, holds⟩

/-- A command moves the job from phase to phase. -/
lemma Focus.move (h : Focus q V j P) {f : JobView → JobView}
    (hP : ∀ {ph}, Holds q V j ph → P ph → ∃ ph', R ph' ∧ ph'.Valid q j ∧ f ph.view = ph'.view) :
    Focus q (Function.update V j (f (V j))) j R := by
  refine ⟨?_, ?_⟩
  · intro j' ne
    obtain ⟨ph, hs, holds⟩ := h.others j' ne
    refine ⟨ph, hs, ?_, holds.valid⟩
    rw [Function.update_of_ne ne]
    exact holds.view
  · obtain ⟨ph, hp, holds⟩ := h.self
    obtain ⟨ph', hp', valid, eq⟩ := hP holds hp
    refine ⟨ph', hp', ?_, valid⟩
    rw [Function.update_self, holds.view]
    exact eq

/-- The other jobs stay in their phases. -/
lemma Holds.update {j' : JobId} {ph : Phase} (h : Holds q V j' ph) (ne : j' ≠ j) (v : JobView) :
    Holds q (Function.update V j v) j' ph := by
  refine ⟨?_, h.valid⟩
  rw [Function.update_of_ne ne]
  exact h.view

end Focus

end ArchipelagoXL.Wq
