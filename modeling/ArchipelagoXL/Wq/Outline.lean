import ArchipelagoXL.Wq.Flow
import ArchipelagoXL.Wq.Phase
import Mathlib.Data.List.Perm.Basic

/-!
# The operations from phase to phase

For each point of each operation `asserts` says which job the operation is at work on and which phases
that job can be in, as long as nobody else is at work. One command leads from the assertion of a point
to the assertion of the next one, or returns with every job in a phase that lasts (`Op.asserts_next`).
-/

namespace ArchipelagoXL.Wq

open Redis (Instr Cmd Store)
open scoped List

/-- The outcome of a step leads to a point with `A`, or returns in a state with `S`. -/
def Out.leads {π α : Type} (A : π → Prop) (S : Prop) : Out π α → Prop
  | .goto p => A p
  | .ret _ => S

section Keeps

variable {q : WorkQueue} {name : String} {e : Env} {i : ℕ} {st : Store JobId Val Claim}

/-! ## Enqueuing -/

def EnqueuePc.asserts (q : WorkQueue) (V : JobId → JobView) : EnqueuePc → Prop
  | .set a => (Focus q V a.jobId fun ph => ph = .absent) ∧ q.parsesParams a.desc.params = true
  | .sadd a _ | .zadd a => Focus q V a.jobId fun ph => ph = .described a.desc
  | .publish _ => Settled q V

lemma EnqueuePc.keeps (hb : Built q name) {p : EnqueuePc} (h : p.asserts q (q.view st)) :
    ((p.code q).outcome i st).leads (asserts q (q.view ((p.code q).cmd.effect i st)))
      (Settled q (q.view ((p.code q).cmd.effect i st))) := by
  cases p with
  | set a =>
    obtain ⟨focus, params⟩ := h
    have after : Focus q (q.view ((Cmd.set (q.getJobKey a.jobId) (.desc a.desc)).effect i st)) a.jobId
        fun ph => ph = .described a.desc := by
      rw [view_setJob hb]
      refine focus.move (f := fun v => { v with desc := some (.desc a.desc) }) ?_
      rintro ph holds rfl
      exact ⟨_, rfl, params, rfl⟩
    simp only [code, Instr.outcome]
    split
    · exact after
    · exact after
  | sadd a part => exact h
  | zadd a =>
    show Settled q (q.view ((Cmd.zadd _ _ _).effect i st))
    rw [view_zadd hb]
    refine (Focus.move (R := fun ph => ph = .pending a.desc a.priority) h
      (f := fun v => { v with pending := Function.update v.pending a.desc.partition _ }) ?_).settled ?_
    · rintro ph holds rfl
      exact ⟨_, rfl, holds.valid, rfl⟩
    · rintro ph rfl
      rfl
  | publish a => exact h

/-! ## Cancelling -/

/-- A phase a job can be cancelled in. -/
def Phase.loose (ph : Phase) : Prop := ph.settled = true ∨ ∃ d, ph = .described d

def CancelPc.asserts (q : WorkQueue) (V : JobId → JobView) : CancelPc → Prop
  | .get j => Focus q V j Phase.loose
  | .zrem j p => Focus q V j fun ph => ph.loose ∧ ∀ d n, ph = .pending d n → p = d.partition
  | .del j => Focus q V j fun ph => ph.loose ∧ ∀ d n, ph ≠ .pending d n
  | .hdel j => Focus q V j fun ph =>
    ph = .absent ∨ (∃ c, ph = .stripped c) ∨ ∃ r, ph = .resolved none r

/-- A job that is taken out of its pending set is only described any more. -/
lemma Phase.view_unqueue (d : JobDesc) (n : Priority) :
    { (Phase.pending d n).view with
      pending := Function.update (Phase.pending d n).view.pending d.partition none } =
    (Phase.described d).view := by
  simp [view]

lemma CancelPc.keeps (hb : Built q name) {p : CancelPc} (h : p.asserts q (q.view st)) :
    ((p.code q).outcome i st).leads (asserts q (q.view ((p.code q).cmd.effect i st)))
      (Settled q (q.view ((p.code q).cmd.effect i st))) := by
  cases p with
  | get j =>
    refine Focus.imp h ?_
    intro ph holds loose
    refine ⟨loose, ?_⟩
    rintro d n rfl
    have desc : st.strs.lookup (q.getJobKey j) = some (.desc d) := congrArg JobView.desc holds.view
    show readPartition (st.strs.lookup (q.getJobKey j)) = d.partition
    rw [desc]
    rfl
  | zrem j p =>
    show Focus q (q.view ((Cmd.zrem _ _).effect i st)) j _
    rw [view_zrem hb]
    refine Focus.move h (f := fun v => { v with pending := Function.update v.pending p none }) ?_
    rintro ph holds ⟨loose, at_⟩
    cases ph with
    | pending d n =>
      obtain rfl := at_ d n rfl
      exact ⟨.described d, ⟨.inr ⟨d, rfl⟩, by simp⟩, holds.valid, Phase.view_unqueue d n⟩
    | requeued d c => rcases loose with eq | ⟨d, eq⟩ <;> cases eq
    | _ => exact ⟨_, ⟨loose, by simp⟩, holds.valid, by simp [Phase.view]⟩
  | del j =>
    show Focus q (q.view ((Cmd.del _).effect i st)) j _
    rw [view_delJob hb]
    refine Focus.move h (f := fun v => { v with desc := none }) ?_
    rintro ph holds ⟨loose, free⟩
    cases ph with
    | absent => exact ⟨.absent, .inl rfl, trivial, rfl⟩
    | described d => exact ⟨.absent, .inl rfl, trivial, rfl⟩
    | claimed d c => exact ⟨.stripped c, .inr (.inl ⟨c, rfl⟩), trivial, rfl⟩
    | resolved d r => exact ⟨.resolved none r, .inr (.inr ⟨r, rfl⟩), ⟨by simp, holds.valid.2⟩, rfl⟩
    | pending d n => exact absurd rfl (free d n)
    | requeued d c => rcases loose with eq | ⟨d, eq⟩ <;> cases eq
    | stripped c => rcases loose with eq | ⟨d, eq⟩ <;> cases eq
  | hdel j =>
    show Settled q (q.view ((Cmd.hdel _ _).effect i st))
    rw [view_hdel]
    refine (Focus.move (R := fun ph => ph.settled = true) h
      (f := fun v => { v with claim := none }) ?_).settled id
    rintro ph holds (rfl | ⟨c, rfl⟩ | ⟨r, rfl⟩)
    · exact ⟨.absent, rfl, trivial, rfl⟩
    · exact ⟨.absent, rfl, trivial, rfl⟩
    · exact ⟨.resolved none r, rfl, holds.valid, rfl⟩

/-! ## Claiming -/

def ClaimPc.asserts (q : WorkQueue) (V : JobId → JobView) : ClaimPc → Prop
  | .subscribe _ | .zpopmin _ _ | .recv _ _ => Settled q V
  | .get a _ j _ | .hset a j _ _ => Focus q V j fun ph =>
    ∃ d, ph = .described d ∧ d.partition = a.partition
  | .cancel _ _ c => c.asserts q V

/-- A job at the head of a pending set is pending there. -/
lemma Settled.head {p : Option String} {j : JobId} {n : ℤ} (h : Settled q (q.view st))
    (hf : Redis.first (st.zsets (q.pending.key p)) = some (j, n)) :
    Focus q (q.view st) j fun ph => ∃ d priority, ph = .pending d priority ∧ d.partition = p ∧
      priority.score = n := by
  refine (h.focus j).imp ?_
  intro ph holds last
  have score : ph.view.pending p = some n := by
    rw [← holds.view]
    exact Redis.first_lookup hf
  cases ph with
  | pending d priority =>
    by_cases e : p = d.partition
    · subst e
      exact ⟨d, priority, rfl, rfl, by simpa [Phase.view] using score⟩
    · simp [Phase.view, e] at score
  | requeued d c => cases last
  | _ => cases score

lemma ClaimPc.keeps (hb : Built q name) {p : ClaimPc} (h : p.asserts q (q.view st)) :
    ((p.code q e).outcome i st).leads (asserts q (q.view ((p.code q e).cmd.effect i st)))
      (Settled q (q.view ((p.code q e).cmd.effect i st))) := by
  cases p with
  | subscribe a => exact h
  | zpopmin a r =>
    cases hf : Redis.first (st.zsets (q.pending.key a.partition)) with
    | none =>
      have ho : ((zpopmin a r).code q e).outcome i st = .goto (.recv a r) := by
        simp [code, Instr.outcome, Cmd.reply, hf]
      rw [ho]
      show Settled q (q.view ((Cmd.zpopmin _).effect i st))
      rw [view_zpopmin_none hf]
      exact h
    | some m =>
      obtain ⟨j, n⟩ := m
      have head := Settled.head h hf
      obtain ⟨_, ⟨d, priority, rfl, part, rfl⟩, holds⟩ := head.self
      have ho : ((zpopmin a r).code q e).outcome i st = .goto (.get a r j priority) := by
        simp [code, Instr.outcome, Cmd.reply, hf]
      rw [ho]
      show Focus q (q.view ((Cmd.zpopmin _).effect i st)) j _
      rw [view_zpopmin hb hf]
      refine head.move (f := fun v => { v with pending := Function.update v.pending a.partition none }) ?_
      rintro _ holds ⟨d, priority, rfl, part, -⟩
      rw [← part]
      exact ⟨.described d, ⟨d, rfl, rfl⟩, holds.valid, Phase.view_unqueue d priority⟩
  | get a r j priority =>
    obtain ⟨_, ⟨d, rfl, part⟩, holds⟩ := h.self
    have desc : st.strs.lookup (q.getJobKey j) = some (.desc d) := congrArg JobView.desc holds.view
    have params : q.parsesParams d.params = true := holds.valid
    have read : q.readDesc (st.strs.lookup (q.getJobKey j)) = .ok d := by
      simp [desc, WorkQueue.readDesc, params]
    rw [ClaimPc.inHand_get read]
    split
    · refine Focus.imp h ?_
      rintro ph - ⟨d, rfl, -⟩
      exact .inr ⟨d, rfl⟩
    · exact h
  | cancel a r c =>
    have keeps := CancelPc.keeps (i := i) hb h
    simp only [code, Instr.map_outcome, Instr.map_cmd]
    cases ho : (c.code q).outcome i st with
    | goto c' =>
      rw [ho] at keeps
      exact keeps
    | ret res =>
      rw [ho] at keeps
      cases res with
      | ok u => exact keeps
      | error err => exact keeps
  | recv a r =>
    have same : q.view (((recv a r).code q e).cmd.effect i st) = q.view st := rfl
    rw [same]
    simp only [code, Instr.outcome]
    split
    · split <;> exact h
    · split <;> exact h
  | hset a j priority params =>
    show Settled q (q.view ((Cmd.hset _ _ _).effect i st))
    rw [view_hset]
    refine (Focus.move (R := fun ph => ph.settled = true) h
      (f := fun v => { v with claim := some _ }) ?_).settled id
    rintro ph holds ⟨d, rfl, part⟩
    exact ⟨.claimed d _, rfl, ⟨holds.valid, rfl, part.symm⟩, rfl⟩

/-! ## Refreshing -/

def ReclaimPc.asserts (q : WorkQueue) (V : JobId → JobView) : ReclaimPc → Prop
  | .hget _ _ => Settled q V
  | .hset j c => Focus q V j fun ph =>
    ∃ d c₀, ph = .claimed d c₀ ∧ c.jobId = c₀.jobId ∧ c.partition = c₀.partition

/-- A job with a claim is claimed. -/
lemma Settled.claimed {j : JobId} {c : Claim} (h : Settled q (q.view st))
    (hc : (st.hashes q.claimsKey).lookup j = some c) :
    Focus q (q.view st) j fun ph => ∃ d, ph = .claimed d c := by
  refine (h.focus j).imp ?_
  intro ph holds last
  have claim : ph.view.claim = some c := by
    rw [← holds.view]
    exact hc
  cases ph with
  | claimed d c' =>
    cases claim
    exact ⟨d, rfl⟩
  | stripped c => cases last
  | requeued d c => cases last
  | _ => cases claim

lemma ReclaimPc.keeps {p : ReclaimPc} (h : p.asserts q (q.view st)) :
    ((p.code q e).outcome i st).leads (asserts q (q.view ((p.code q e).cmd.effect i st)))
      (Settled q (q.view ((p.code q e).cmd.effect i st))) := by
  cases p with
  | hget j wk =>
    have same : q.view (((hget j wk).code q e).cmd.effect i st) = q.view st := rfl
    rw [same]
    cases ho : ((hget j wk).code q e).outcome i st with
    | ret r => exact h
    | goto p' =>
      cases p' with
      | hget j' wk' => exact h
      | hset j' c =>
        obtain ⟨wk', c₀, eq, hc, rfl⟩ := ReclaimPc.goto_hset ho
        cases eq
        refine (Settled.claimed h hc).imp ?_
        rintro ph - ⟨d, rfl⟩
        exact ⟨d, c₀, rfl, rfl, rfl⟩
  | hset j c =>
    show Settled q (q.view ((Cmd.hset _ _ _).effect i st))
    rw [view_hset]
    refine (Focus.move (R := fun ph => ph.settled = true) h
      (f := fun v => { v with claim := some c }) ?_).settled id
    rintro ph holds ⟨d, c₀, rfl, hj, hp⟩
    obtain ⟨params, job, part⟩ := holds.valid
    exact ⟨.claimed d c, rfl, ⟨params, hj.trans job, hp.trans part⟩, rfl⟩

/-! ## Resolving -/

/-- A status that resolves the job and a result that can be read back. -/
def Resolve.fine (q : WorkQueue) (a : Resolve) : Prop :=
  a.status.isResolved = true ∧ a.result.all q.parsesResult = true

def ResolvePc.asserts (q : WorkQueue) (V : JobId → JobView) : ResolvePc → Prop
  | .hget a => Settled q V ∧ a.fine q
  | .get a => (Focus q V a.jobId fun ph => ∃ d c, ph = .claimed d c) ∧ a.fine q
  | .hdel a d => (Focus q V a.jobId fun ph => ∃ c, ph = .claimed d c) ∧ a.fine q
  | .callback a d => (Focus q V a.jobId fun ph => ph = .described d) ∧ a.fine q
  | .set a final _ => (Focus q V a.jobId fun ph => ∃ d, ph = .described d) ∧
    final.isResolved = true ∧ a.result.all q.parsesResult = true
  | .setEx a _ _ | .incr a _ _ | .publish a _ _ | .delJob a =>
    Focus q V a.jobId fun ph => ∃ d r, ph = .resolved d r
  | .delResult a => Focus q V a.jobId fun ph => ∃ r, ph = .resolved none r

lemma ResolvePc.keeps (hb : Built q name) {p : ResolvePc} (h : p.asserts q (q.view st)) :
    ((p.code q e).outcome i st).leads (asserts q (q.view ((p.code q e).cmd.effect i st)))
      (Settled q (q.view ((p.code q e).cmd.effect i st))) := by
  have past : ∀ {V j}, (Focus q V j fun ph => ∃ d r, ph = .resolved d r) → Settled q V := by
    intro V j h
    refine h.settled ?_
    rintro ph ⟨d, r, rfl⟩
    rfl
  cases p with
  | hget a =>
    obtain ⟨settled, fine⟩ := h
    have same : q.view (((hget a).code q e).cmd.effect i st) = q.view st := rfl
    rw [same]
    simp only [code, Instr.outcome, Cmd.reply]
    split
    · exact settled
    · rename_i c hc
      split
      · exact settled
      · refine ⟨(settled.claimed hc).imp ?_, fine⟩
        rintro ph - ⟨d, rfl⟩
        exact ⟨d, c, rfl⟩
  | get a =>
    obtain ⟨focus, fine⟩ := h
    obtain ⟨_, ⟨d, c, rfl⟩, holds⟩ := focus.self
    have desc : st.strs.lookup (q.getJobKey a.jobId) = some (.desc d) :=
      congrArg JobView.desc holds.view
    have ho : ((get a).code q e).outcome i st = .goto (.hdel a d) := by
      simp [code, Instr.outcome, Cmd.reply, desc, WorkQueue.readDesc, holds.valid.1]
    rw [ho]
    exact ⟨⟨focus.others, _, ⟨c, rfl⟩, holds⟩, fine⟩
  | hdel a d =>
    obtain ⟨focus, fine⟩ := h
    have after : Focus q (q.view ((Cmd.hdel q.claimsKey a.jobId).effect i st)) a.jobId
        fun ph => ph = .described d := by
      rw [view_hdel]
      refine focus.move (f := fun v => { v with claim := none }) ?_
      rintro ph holds ⟨c, rfl⟩
      exact ⟨_, rfl, holds.valid.1, rfl⟩
    simp only [code, Instr.outcome]
    split
    · exact ⟨after, fine⟩
    · refine ⟨after.imp ?_, fine⟩
      rintro ph - rfl
      exact ⟨d, rfl⟩
  | callback a d =>
    obtain ⟨focus, fine⟩ := h
    have some_desc : Focus q (q.view st) a.jobId fun ph => ∃ d, ph = .described d := by
      refine focus.imp ?_
      rintro ph - rfl
      exact ⟨d, rfl⟩
    have same : q.view (((callback a d).code q e).cmd.effect i st) = q.view st := rfl
    rw [same]
    simp only [code, Instr.outcome]
    split
    · exact ⟨some_desc, fine⟩
    · exact ⟨some_desc, rfl, fine.2⟩
  | set a final cleanup =>
    obtain ⟨focus, resolved, reads⟩ := h
    show Focus q (q.view ((Cmd.set _ _).effect i st)) a.jobId _
    rw [view_setResult hb]
    refine focus.move (f := fun v => { v with result := some (.result ⟨final, a.result⟩) }) ?_
    rintro ph holds ⟨d, rfl⟩
    refine ⟨.resolved (some d) ⟨final, a.result⟩, ⟨_, _, rfl⟩, ⟨?_, resolved, reads⟩, rfl⟩
    rintro d' ⟨rfl⟩
    exact holds.valid
  | setEx a final cleanup =>
    show Focus q (q.view ((Cmd.setEx _ _).effect i st)) a.jobId _
    rw [view_setEx hb]
    exact h
  | incr a final cleanup => exact h
  | publish a final cleanup =>
    have same : q.view (((publish a final cleanup).code q e).cmd.effect i st) = q.view st := rfl
    rw [same]
    cases cleanup with
    | true => exact h
    | false => exact past h
  | delJob a =>
    show Focus q (q.view ((Cmd.del _).effect i st)) a.jobId _
    rw [view_delJob hb]
    refine Focus.move h (f := fun v => { v with desc := none }) ?_
    rintro ph holds ⟨d, r, rfl⟩
    exact ⟨.resolved none r, ⟨r, rfl⟩, ⟨by simp, holds.valid.2⟩, rfl⟩
  | delResult a =>
    show Settled q (q.view ((Cmd.del _).effect i st))
    rw [view_delResult hb]
    refine (Focus.move (R := fun ph => ph.settled = true) h
      (f := fun v => { v with result := none }) ?_).settled id
    rintro ph holds ⟨r, rfl⟩
    exact ⟨.absent, rfl, trivial, rfl⟩

/-! ## The reclaim checker -/

/-- The claims of a snapshot are those of different jobs, and still stored. -/
structure Snapshot (q : WorkQueue) (V : JobId → JobView) (claims : List Claim) : Prop where
  nodup : (claims.map (·.jobId)).Nodup
  stored : ∀ c ∈ claims, ∃ d, Holds q V c.jobId (.claimed d c)

lemma Snapshot.tail {V : JobId → JobView} {c : Claim} {rest : List Claim}
    (h : Snapshot q V (c :: rest)) : Snapshot q V rest :=
  ⟨(List.nodup_cons.1 h.nodup).2, fun c hc => h.stored c (List.mem_cons_of_mem _ hc)⟩

lemma Snapshot.perm {V : JobId → JobView} {cs cs' : List Claim} (h : Snapshot q V cs)
    (perm : cs' ~ cs) : Snapshot q V cs' :=
  ⟨(perm.map _).nodup_iff.2 h.nodup, fun c hc => h.stored c (perm.mem_iff.1 hc)⟩

/-- A snapshot stays true when the claim of another job changes. -/
lemma Snapshot.update {V : JobId → JobView} {j : JobId} {claims : List Claim} (h : Snapshot q V claims)
    (out : j ∉ claims.map (·.jobId)) (v : JobView) : Snapshot q (Function.update V j v) claims := by
  refine ⟨h.nodup, ?_⟩
  intro c hc
  obtain ⟨d, holds⟩ := h.stored c hc
  refine ⟨d, holds.update ?_ v⟩
  rintro rfl
  exact out (List.mem_map_of_mem hc)

def CheckerPc.asserts (q : WorkQueue) (V : JobId → JobView) : CheckerPc → Prop
  | .hgetall => Settled q V
  | .scan _ rest | .publish _ _ rest => Settled q V ∧ Snapshot q V rest
  | .zadd _ c rest => Settled q V ∧ Snapshot q V (c :: rest)
  | .del _ c rest | .hdel _ c rest => (Focus q V c.jobId fun ph => ∃ d, ph = .requeued d c) ∧
    c.jobId ∉ rest.map (·.jobId) ∧ Snapshot q V rest

/-- What `HGETALL` gives is a snapshot. -/
lemma Settled.snapshot (h : Settled q (q.view st)) :
    Snapshot q (q.view st) ((st.hashes q.claimsKey).entries.map (·.2)) := by
  have stored : ∀ {j c}, ⟨j, c⟩ ∈ (st.hashes q.claimsKey).entries →
      ∃ d, Holds q (q.view st) j (.claimed d c) := by
    intro j c mem
    obtain ⟨_, ⟨d, rfl⟩, holds⟩ := (h.claimed (AList.mem_lookup_iff.2 mem)).self
    exact ⟨d, holds⟩
  refine ⟨?_, ?_⟩
  · have keys : ((st.hashes q.claimsKey).entries.map (·.2)).map (·.jobId) =
        (st.hashes q.claimsKey).keys := by
      rw [List.map_map]
      apply List.map_congr_left
      rintro ⟨j, c⟩ mem
      obtain ⟨d, holds⟩ := stored mem
      exact holds.valid.2.1
    rw [keys]
    exact AList.keys_nodup _
  · intro c hc
    obtain ⟨⟨j, c⟩, mem, rfl⟩ := List.mem_map.1 hc
    obtain ⟨d, holds⟩ := stored mem
    have job : c.jobId = j := holds.valid.2.1
    subst job
    exact ⟨d, holds⟩

lemma CheckerPc.keeps (hb : Built q name) {p : CheckerPc} (h : p.asserts q (q.view st)) :
    ((p.code q e).outcome i st).leads (asserts q (q.view ((p.code q e).cmd.effect i st)))
      (Settled q (q.view ((p.code q e).cmd.effect i st))) := by
  cases p with
  | hgetall =>
    have same : q.view ((hgetall.code q e).cmd.effect i st) = q.view st := rfl
    rw [same]
    simp only [code, Instr.outcome, Cmd.reply]
    split
    · exact h
    · exact ⟨h, Settled.snapshot h⟩
  | scan now rest =>
    obtain ⟨settled, snap⟩ := h
    have same : q.view (((scan now rest).code q e).cmd.effect i st) = q.view st := rfl
    rw [same]
    simp only [code, Instr.outcome]
    split
    · exact settled
    · rename_i c hc
      obtain ⟨lt, rfl⟩ := List.getElem?_eq_some_iff.1 hc
      have snap' := snap.perm (List.getElem_cons_eraseIdx_perm lt)
      split
      · exact ⟨settled, snap'⟩
      · exact ⟨settled, snap'.tail⟩
  | zadd now c rest =>
    obtain ⟨settled, snap⟩ := h
    have out := (List.nodup_cons.1 snap.nodup).1
    obtain ⟨d, holds⟩ := snap.stored c List.mem_cons_self
    show (Focus q (q.view ((Cmd.zadd _ _ _).effect i st)) c.jobId _) ∧ _ ∧
      Snapshot q (q.view ((Cmd.zadd _ _ _).effect i st)) rest
    rw [view_zadd hb]
    refine ⟨?_, out, snap.tail.update out _⟩
    refine Focus.move (P := fun ph => ph = .claimed d c) ⟨fun j' _ => settled j', _, rfl, holds⟩
      (f := fun v => { v with pending := Function.update v.pending c.partition _ }) ?_
    rintro ph holds rfl
    refine ⟨.requeued d c, ⟨d, rfl⟩, holds.valid, ?_⟩
    rw [holds.valid.2.2]
    rfl
  | del now c rest =>
    have same : q.view (((del now c rest).code q e).cmd.effect i st) = q.view st :=
      view_delOther (fun j => hb.jobKey_ne_claimKey j c.jobId)
        (fun j => hb.resultKey_ne_claimKey j c.jobId)
    rw [same]
    exact h
  | hdel now c rest =>
    obtain ⟨focus, out, snap⟩ := h
    show Settled q (q.view ((Cmd.hdel _ _).effect i st)) ∧
      Snapshot q (q.view ((Cmd.hdel _ _).effect i st)) rest
    rw [view_hdel]
    refine ⟨?_, snap.update out _⟩
    refine (Focus.move (R := fun ph => ph.settled = true) focus
      (f := fun v => { v with claim := none }) ?_).settled id
    rintro ph holds ⟨d, rfl⟩
    exact ⟨.pending d c.priority, rfl, holds.valid.1, rfl⟩
  | publish now c rest => exact h

/-! ## Deleting results -/

/-- A phase without a job that is still to be done. -/
def Phase.over (ph : Phase) : Prop := ph = .absent ∨ ∃ d r, ph = .resolved d r

lemma Phase.over.settled {ph : Phase} (h : ph.over) : ph.settled = true := by
  rcases h with rfl | ⟨d, r, rfl⟩
  · rfl
  · rfl

def DeletePc.job : DeletePc → JobId
  | .delResult j | .delJob j => j

def DeletePc.asserts (q : WorkQueue) (V : JobId → JobView) : DeletePc → Prop
  | .delResult j => Focus q V j Phase.over
  | .delJob j => Focus q V j fun ph => ph = .absent ∨ ∃ d, ph = .described d

/-- The deleted job is absent in the end, and only its own view has changed. -/
lemma DeletePc.keeps (hb : Built q name) {p : DeletePc} (h : p.asserts q (q.view st)) :
    ((p.code q).outcome i st).leads
      (fun p' => p'.asserts q (q.view ((p.code q).cmd.effect i st)) ∧ p'.job = p.job)
      (Focus q (q.view ((p.code q).cmd.effect i st)) p.job fun ph => ph = .absent) := by
  cases p with
  | delResult j =>
    refine ⟨?_, rfl⟩
    show Focus q (q.view ((Cmd.del _).effect i st)) j _
    rw [view_delResult hb]
    refine Focus.move h (f := fun v => { v with result := none }) ?_
    rintro ph holds (rfl | ⟨d, r, rfl⟩)
    · exact ⟨.absent, .inl rfl, trivial, rfl⟩
    · cases d with
      | none => exact ⟨.absent, .inl rfl, trivial, rfl⟩
      | some d => exact ⟨.described d, .inr ⟨d, rfl⟩, holds.valid.1 d rfl, rfl⟩
  | delJob j =>
    show Focus q (q.view ((Cmd.del _).effect i st)) j _
    rw [view_delJob hb]
    refine Focus.move h (f := fun v => { v with desc := none }) ?_
    rintro ph holds (rfl | ⟨d, rfl⟩)
    · exact ⟨.absent, rfl, trivial, rfl⟩
    · exact ⟨.absent, rfl, trivial, rfl⟩

/-- Only the view of the deleted job changes. -/
lemma DeletePc.view_effect (hb : Built q name) (p : DeletePc) (i : ℕ) (st : Store JobId Val Claim) :
    ∃ v, q.view ((p.code q).cmd.effect i st) = Function.update (q.view st) p.job v := by
  cases p with
  | delResult j => exact ⟨_, view_delResult hb j⟩
  | delJob j => exact ⟨_, view_delJob hb j⟩

/-! ## Orphaned results -/

/-- The keys that are still to be looked at are those of results, and their jobs are over, apart from
the one being deleted. -/
def Results (q : WorkQueue) (V : JobId → JobView) (deleting : Option JobId) (rest : List String) : Prop :=
  ∀ key ∈ rest, ∃ j, key = q.getResultKey j ∧
    (deleting = some j ∨ ∃ ph, Phase.over ph ∧ Holds q V j ph)

lemma Results.update {V : JobId → JobView} {deleting : Option JobId} {rest : List String} {j : JobId}
    (h : Results q V deleting rest) (hd : deleting = none ∨ deleting = some j) (v : JobView) :
    Results q (Function.update V j v) (some j) rest := by
  intro key hk
  obtain ⟨j', rfl, ended⟩ := h key hk
  refine ⟨j', rfl, ?_⟩
  by_cases e : j' = j
  · exact .inl (congrArg some e.symm)
  · rcases ended with eq | ⟨ph, ended, holds⟩
    · rcases hd with rfl | rfl
      · cases eq
      · cases eq
        exact absurd rfl e
    · exact .inr ⟨ph, ended, holds.update e v⟩

lemma Results.close {V : JobId → JobView} {rest : List String} {j : JobId} {P : Phase → Prop}
    (h : Results q V (some j) rest) (focus : Focus q V j P) (hP : ∀ {ph}, P ph → ph.over) :
    Results q V none rest := by
  intro key hk
  obtain ⟨j', rfl, eq | ended⟩ := h key hk
  · cases eq
    obtain ⟨ph, hp, holds⟩ := focus.self
    exact ⟨j, rfl, .inr ⟨ph, hP hp, holds⟩⟩
  · exact ⟨j', rfl, .inr ended⟩

lemma Results.head {V : JobId → JobView} {key : String} {rest : List String}
    (h : Results q V none (key :: rest)) :
    ∃ j ph, key = q.getResultKey j ∧ Phase.over ph ∧ Holds q V j ph := by
  obtain ⟨j, eq, none | ⟨ph, ended, holds⟩⟩ := h key List.mem_cons_self
  · cases none
  · exact ⟨j, ph, eq, ended, holds⟩

lemma Results.tail {V : JobId → JobView} {key : String} {rest : List String}
    (h : Results q V none (key :: rest)) : Results q V none rest :=
  fun key hk => h key (List.mem_cons_of_mem _ hk)

lemma Results.open {V : JobId → JobView} {rest : List String} (h : Results q V none rest) (j : JobId) :
    Results q V (some j) rest := by
  intro key hk
  obtain ⟨j', eq, none | ended⟩ := h key hk
  · cases none
  · exact ⟨j', eq, .inr ended⟩

/-- What follows the last colon of a result's key is the text of its job. -/
lemma lastSegment_resultKey (q : WorkQueue) (j : JobId) : lastSegment (q.getResultKey j) = j.text := by
  have pure_text : ∀ c ∈ j.text.toList.reverse, (decide (c ≠ ':')) = true := by
    intro c hc
    have ne : c ≠ ':' := by
      rintro rfl
      exact j.colon_not_mem_text (List.mem_reverse.1 hc)
    simpa using ne
  unfold lastSegment WorkQueue.getResultKey
  rw [String.toList_append, String.toList_append, List.reverse_append, List.reverse_append,
    List.takeWhile_append_of_pos pure_text]
  simp

def OrphansPc.asserts (q : WorkQueue) (V : JobId → JobView) : OrphansPc → Prop
  | .keys => Settled q V
  | .next rest => Settled q V ∧ Results q V none rest
  | .delete d rest => d.asserts q V ∧ Results q V (some d.job) rest
  | .getJob j key rest | .getResult _ j key rest | .callback _ _ j key rest | .delJob j key rest =>
    key = q.getResultKey j ∧ Focus q V j Phase.over ∧ Results q V none rest
  | .delResult key rest => ∃ j, key = q.getResultKey j ∧
    (Focus q V j fun ph => ph = .absent ∨ ∃ r, ph = .resolved none r) ∧ Results q V none rest

/-- The string keys of the store are those of descriptions, results and resolved statuses. -/
def Named (q : WorkQueue) (st : Store JobId Val Claim) : Prop :=
  ∀ k ∈ st.strs, ∃ j, k = q.getJobKey j ∨ k = q.getResultKey j ∨ k = q.getResolvedKey j

/-- What `KEYS` finds are the results, and their jobs are over. -/
lemma Settled.results (hb : Built q name) (named : Named q st) (h : Settled q (q.view st)) :
    Results q (q.view st) none
      (st.strs.keys.filter fun k => (q.resultsKey ++ ":").toList.isPrefixOf k.toList) := by
  intro key hk
  obtain ⟨mem, pre⟩ := List.mem_filter.1 hk
  have pre' := List.isPrefixOf_iff_prefix.1 pre
  obtain ⟨j, rfl | rfl | rfl⟩ := named key mem
  · exact absurd pre' (hb.jobKey_not_results j)
  · refine ⟨j, rfl, .inr ?_⟩
    obtain ⟨v, hv⟩ := Option.isSome_iff_exists.1 (AList.lookup_isSome.2 mem)
    obtain ⟨ph, last, holds⟩ := h j
    have result : ph.view.result = some v := by
      rw [← holds.view]
      exact hv
    cases ph with
    | resolved d r => exact ⟨_, .inr ⟨d, r, rfl⟩, holds⟩
    | _ => cases result
  · exact absurd pre' (hb.resolvedKey_not_results j)

lemma OrphansPc.keeps (hb : Built q name) (named : Named q st) {p : OrphansPc}
    (h : p.asserts q (q.view st)) :
    ((p.code q e).outcome i st).leads (asserts q (q.view ((p.code q e).cmd.effect i st)))
      (Settled q (q.view ((p.code q e).cmd.effect i st))) := by
  cases p with
  | keys => exact ⟨h, Settled.results hb named h⟩
  | next rest =>
    obtain ⟨settled, results⟩ := h
    cases rest with
    | nil =>
      simp only [code, Cmd.effect]
      exact settled
    | cons key rest =>
      simp only [code, Instr.outcome, Cmd.effect]
      -- the goal must not be evaluated while the text is unknown
      generalize read : Uuid.parseStr (lastSegment key) = parsed
      obtain ⟨j, ph, rfl, ended, holds⟩ := results.head
      rw [lastSegment_resultKey, Uuid.parseStr_text] at read
      subst read
      have focus : Focus q (q.view st) j Phase.over := ⟨fun j' _ => settled j', ph, ended, holds⟩
      split
      · rename_i eq
        cases eq
      · rename_i eq
        cases eq
        split
        · exact ⟨rfl, focus, results.tail⟩
        · exact ⟨focus, results.tail.open j⟩
  | delete d rest =>
    obtain ⟨asserts, results⟩ := h
    have keeps := DeletePc.keeps (i := i) hb asserts
    obtain ⟨v, view⟩ := DeletePc.view_effect hb d i st
    have results' : Results q (q.view ((d.code q).cmd.effect i st)) (some d.job) rest := by
      rw [view]
      exact results.update (.inr rfl) v
    simp only [code, Instr.map_outcome, Instr.map_cmd]
    cases ho : (d.code q).outcome i st with
    | goto d' =>
      rw [ho] at keeps
      obtain ⟨asserts', job⟩ := keeps
      refine ⟨asserts', ?_⟩
      rw [job]
      exact results'
    | ret res =>
      rw [ho] at keeps
      have settled := Focus.settled keeps fun eq => by rw [eq]; rfl
      cases res with
      | ok u => exact ⟨settled, results'.close keeps .inl⟩
      | error err => exact settled
  | getJob j key rest =>
    obtain ⟨rfl, focus, results⟩ := h
    have settled := focus.settled Phase.over.settled
    have same : q.view (((getJob j (q.getResultKey j) rest).code q e).cmd.effect i st) =
      q.view st := rfl
    rw [same]
    simp only [code, Instr.outcome]
    split
    · exact ⟨focus, results.open j⟩
    · split
      · exact settled
      · exact ⟨rfl, focus, results⟩
  | getResult d j key rest =>
    obtain ⟨rfl, focus, results⟩ := h
    have settled := focus.settled Phase.over.settled
    have same : q.view (((getResult d j (q.getResultKey j) rest).code q e).cmd.effect i st) =
      q.view st := rfl
    rw [same]
    simp only [code, Instr.outcome]
    split
    · exact ⟨rfl, focus, results⟩
    · exact settled
    · exact settled
  | callback d r j key rest =>
    obtain ⟨rfl, focus, results⟩ := h
    have settled := focus.settled Phase.over.settled
    have same : q.view (((callback d r j (q.getResultKey j) rest).code q e).cmd.effect i st) =
      q.view st := rfl
    rw [same]
    simp only [code, Instr.outcome]
    split
    · exact ⟨rfl, focus, results⟩
    · exact ⟨settled, results⟩
    · exact ⟨settled, results⟩
  | delJob j key rest =>
    obtain ⟨rfl, focus, results⟩ := h
    show ∃ j', _ ∧ (Focus q (q.view ((Cmd.del _).effect i st)) j' _) ∧
      Results q (q.view ((Cmd.del _).effect i st)) none rest
    rw [view_delJob hb]
    have after : Focus q (Function.update (q.view st) j { q.view st j with desc := none }) j
        fun ph => ph = .absent ∨ ∃ r, ph = .resolved none r := by
      refine focus.move (f := fun v => { v with desc := none }) ?_
      rintro ph holds (rfl | ⟨d, r, rfl⟩)
      · exact ⟨.absent, .inl rfl, trivial, rfl⟩
      · exact ⟨.resolved none r, .inr ⟨r, rfl⟩, ⟨by simp, holds.valid.2⟩, rfl⟩
    refine ⟨j, rfl, after, (results.update (.inl rfl) _).close after ?_⟩
    rintro ph (rfl | ⟨r, rfl⟩)
    · exact .inl rfl
    · exact .inr ⟨none, r, rfl⟩
  | delResult key rest =>
    obtain ⟨j, rfl, focus, results⟩ := h
    show Settled q (q.view ((Cmd.del _).effect i st)) ∧
      Results q (q.view ((Cmd.del _).effect i st)) none rest
    rw [view_delResult hb]
    have after : Focus q (Function.update (q.view st) j { q.view st j with result := none }) j
        fun ph => ph = .absent := by
      refine focus.move (f := fun v => { v with result := none }) ?_
      rintro ph holds (rfl | ⟨r, rfl⟩)
      · exact ⟨.absent, rfl, trivial, rfl⟩
      · exact ⟨.absent, rfl, trivial, rfl⟩
    refine ⟨after.settled fun eq => by rw [eq]; rfl, (results.update (.inl rfl) _).close after .inl⟩

/-! ## All operations -/

def Op.asserts (q : WorkQueue) (V : JobId → JobView) : Op → Prop
  | .enqueue p => p.asserts q V
  | .claim p => p.asserts q V
  | .reclaim p => p.asserts q V
  | .resolve p => p.asserts q V
  | .cancel p => p.asserts q V
  | .checker p => p.asserts q V
  | .delete p => p.asserts q V
  | .orphans p => p.asserts q V
  | .status _ | .wait _ | .stats _ => Settled q V

/-- The outcome of a step leads to an operation with `A`, or returns in a state with `S`. -/
def Next.leads (A : Op → Prop) (S : Prop) : Next → Prop
  | .goto o => A o
  | .ret _ => S

lemma Out.leads.mono {π α : Type} {out : Out π α} {A B : π → Prop} {S T : Prop} (h : out.leads A S)
    (hA : ∀ {p}, A p → B p) (hS : S → T) : out.leads B T := by
  cases out with
  | goto p => exact hA h
  | ret r => exact hS h

lemma Out.leads.lift {π α : Type} {f : π → Op} {g : Except WorkQueueError α → Ret} {out : Out π α}
    {A : Op → Prop} {S : Prop} (h : out.leads (fun p => A (f p)) S) : (out.lift f g).leads A S := by
  cases out with
  | goto p => exact h
  | ret r => exact h

/-- Operations that only look change nothing. -/
lemma Op.asserts_reader {o : Op} (reads : changesData (o.code q e).cmd = false)
    (goes : ∀ {o'}, o.Goes q e i st o' → o'.asserts q (q.view st) = Settled q (q.view st))
    (h : Settled q (q.view st)) :
    ((o.code q e).outcome i st).leads (asserts q (q.view ((o.code q e).cmd.effect i st)))
      (Settled q (q.view ((o.code q e).cmd.effect i st))) := by
  rw [view_of_changesData reads]
  cases ho : (o.code q e).outcome i st with
  | goto o' =>
    show o'.asserts q (q.view st)
    rw [goes (Op.goes ho)]
    exact h
  | ret r => exact h

/-- One command leads from assertion to assertion. -/
theorem Op.asserts_next (hb : Built q name) (named : Named q st) {o : Op} (h : o.asserts q (q.view st)) :
    ((o.code q e).outcome i st).leads (asserts q (q.view ((o.code q e).cmd.effect i st)))
      (Settled q (q.view ((o.code q e).cmd.effect i st))) := by
  cases o with
  | enqueue p => exact (EnqueuePc.keeps hb h).lift
  | claim p => exact (ClaimPc.keeps hb h).lift
  | reclaim p => exact (ReclaimPc.keeps h).lift
  | resolve p => exact (ResolvePc.keeps hb h).lift
  | cancel p => exact (CancelPc.keeps hb h).lift
  | checker p => exact (CheckerPc.keeps hb h).lift
  | orphans p => exact (OrphansPc.keeps hb named h).lift
  | delete p =>
    apply Out.leads.lift
    refine (DeletePc.keeps hb h).mono (fun h => h.1) ?_
    intro focus
    exact focus.settled fun eq => by rw [eq]; rfl
  | status p =>
    refine Op.asserts_reader ?_ ?_ h
    · cases p <;> rfl
    · intro o' g
      cases g
      rfl
  | wait p =>
    refine Op.asserts_reader ?_ ?_ h
    · cases p with
      | status j t s => cases s <;> rfl
      | _ => rfl
    · intro o' g
      cases g
      rfl
  | stats p =>
    refine Op.asserts_reader ?_ ?_ h
    · cases p <;> rfl
    · intro o' g
      cases g
      rfl

end Keeps

end ArchipelagoXL.Wq
