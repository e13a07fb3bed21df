import ArchipelagoXL.Wq.Fresh
import ArchipelagoXL.Wq.Reclaim

/-!
# Cancellation

`cancel_job` finds the job's pending set from its description and then clears three places with three
commands. Whatever has read the job's data before can bring it back afterwards: a claimer that is about
to store its claim (`cancel_undone`), a `reclaim_job` that is about to refresh one, a pass of the checker
that is about to put the job back. `CancelSafe` leaves these overlaps out; then the last command of
`cancel_job` leaves the job buried, and no step brings it back.
-/

namespace ArchipelagoXL.Wq

open Redis (Instr Cmd Store)
open Interleave

variable {q : WorkQueue} {name : String}

/-! ## What sticks -/

/-- A `cancel_job` for `j` returns `Ok`. -/
def returnsCancel (j : JobId) (ev : Event (Pc Unit) (Input Unit)) : Bool :=
  match ev.before, ev.after with
  | .busy _ (.cancel c), .finished _ (.cancelled (.ok ())) => c.job = j
  | _, _ => false

/-- The job is in no pending set and has no claim, and whoever asks for its claim to refresh it or to
resolve the job is told that it was cancelled. -/
structure Gone (q : WorkQueue) (s : Conf (World Unit) (Pc Unit)) (j : JobId) : Prop where
  pending : ∀ k, j ∉ s.shared.store.zsets k
  claims : (s.shared.store.hashes q.claimsKey).lookup j = none
  reclaim : ∀ i wk e w p, s.pc i = .busy () (.reclaim (.hget j wk)) →
    step (fun _ => q) i s.shared (s.pc i) (.go e) = some (w, p) →
    p = .finished () (.reclaimed (.error .jobCancelled))
  resolve : ∀ i a e w p, s.pc i = .busy () (.resolve (.hget a)) → a.jobId = j →
    step (fun _ => q) i s.shared (s.pc i) (.go e) = some (w, p) →
    p = .finished () (.resolved (.error .jobCancelled))

/-- Once `cancel_job` has returned and what was running then has finished, the job is gone. -/
def CancelSticks (q : WorkQueue) (tr : List (Event (Pc Unit) (Input Unit)))
    (s : Conf (World Unit) (Pc Unit)) : Prop :=
  ∀ post ev pre j, tr = post ++ ev :: pre → returnsCancel j ev = true →
    (∀ i n o, s.pc i = .busy n o → ∃ ev' ∈ post, ev'.tid = i ∧ ev'.before = .idle) → Gone q s j

/-- A job is cancelled between its claimer's reading of the description and the claim. -/
def overtakenSchedule : List (ℕ × Input Unit) :=
  callOf 0 (.enqueueJobIn none "" .normal 60) 3 ++ callOf 1 (.claimJobIn none "w") 3 ++
  callOf 2 (.cancelJob ⟨0⟩) 4 ++ [(1, .go {})]

/-- After everything has finished, the cancelled job has a claim. -/
theorem cancel_undone :
    ¬ ∀ tr s, Runs (fun _ : Unit => testQueue.queue) Cond.any tr s →
      CancelSticks testQueue.queue tr s := by
  intro all
  have run : Runs (fun _ : Unit => testQueue.queue) Cond.any
      (traceOf testMachine Conf.initial overtakenSchedule)
      (finalOf testMachine Conf.initial overtakenSchedule) :=
    exec_run_any (by decide)
  have split : traceOf testMachine Conf.initial overtakenSchedule =
      (traceOf testMachine Conf.initial overtakenSchedule).take 1 ++
        ⟨2, .busy () (.cancel (.hdel ⟨0⟩)), .go {}, .finished () (.cancelled (.ok ()))⟩ ::
          (traceOf testMachine Conf.initial overtakenSchedule).drop 2 := by
    decide
  have quiet : ∀ i, ((finalOf testMachine Conf.initial overtakenSchedule).pc i).isBusy = false := by
    apply finalOf_forall (P := fun _ (p : Pc Unit) => p.isBusy = false) (b := 3)
    · intro k
      rfl
    · decide
    · decide
  have gone := all _ _ run _ _ _ ⟨0⟩ split (by decide) fun i n o h => by
    have no := quiet i
    rw [h] at no
    cases no
  have claimed : ((finalOf testMachine Conf.initial overtakenSchedule).shared.store.hashes
      testQueue.queue.claimsKey).lookup ⟨0⟩ ≠ none := by
    decide
  exact claimed gone.claims

/-! ## Descriptions -/

/-- Nobody writes the description of a known job. -/
lemma known_undescribed (built : Built q name) {s : Conf (World Unit) (Pc Unit)} {j : JobId}
    (kn : Known s j) (h : s.shared.store.strs.lookup (q.getJobKey j) = none) {i : ℕ}
    {x : Input Unit} {w : World Unit} {p : Pc Unit}
    (st : step (fun _ => q) i s.shared (s.pc i) x = some (w, p)) :
    w.store.strs.lookup (q.getJobKey j) = none := by
  cases hv : w.store.strs.lookup (q.getJobKey j) with
  | none => rfl
  | some v =>
    exfalso
    rcases step_strs_gain st hv with hv | ⟨n, a, e, hpc, rfl, hk, -⟩ |
      ⟨n, a, final, cleanup, e, hpc, rfl, hk, -⟩ | ⟨n, a, final, cleanup, e, hpc, rfl, hk, -⟩
    · rw [h] at hv
      cases hv
    · obtain rfl := built.jobKey_inj hk
      exact kn.enqueued i ⟨n, _, hpc, rfl, rfl⟩
    · exact built.jobKey_ne_resultKey _ _ hk
    · exact built.jobKey_ne_resolvedKey _ _ hk

/-! ## The condition -/

/-- Someone has read the job's data and will write it back: a claimer that is about to store its claim,
a `reclaim_job` about to refresh one, a pass of the checker that is to put an expired one back. -/
inductive Pc.Revives (q : WorkQueue) (j : JobId) : Pc Unit → Prop where
  | claim {a priority params} : Revives q j (.busy () (.claim (.hset a j priority params)))
  | reclaim {c} : Revives q j (.busy () (.reclaim (.hset j c)))
  | pass {p c} : p.due (fun _ => q) () c → c.jobId = j → Revives q j p

/-- What the next command of an operation needs for cancellations to stick. -/
def Op.cancelSafe (q : WorkQueue) (s : Conf (World Unit) (Pc Unit)) : Op → Prop
  -- without a description the default partition is cleared
  | .cancel (.get j) => s.shared.store.strs.lookup (q.getJobKey j) = none →
      ∀ k, j ∈ s.shared.store.zsets k → k = q.pending.key none
  | .cancel (.hdel j) => ∀ i, ¬ (s.pc i).Revives q j
  | .checker (.zadd _ c _) => ∀ i,
      s.pc i ≠ .busy () (.cancel (.del c.jobId)) ∧ s.pc i ≠ .busy () (.cancel (.hdel c.jobId)) ∧
      ∀ p, s.pc i = .busy () (.cancel (.zrem c.jobId p)) → p = c.partition
  | _ => True

/-- `cancel_job` is called for jobs whose `enqueue_job_in` is over, and no step undoes what a
cancellation has done or is about to do. -/
def CancelSafe (q : WorkQueue) : Cond (World Unit) (Pc Unit) (Input Unit) := fun _ s i x =>
  (∀ j e, x = .start () (.cancelJob j) e → Known s j) ∧
  ∀ o e, s.pc i = .busy () o → x = .go e → o.cancelSafe q s

/-! ## A cancellation under way -/

/-- How a thread comes to a point of `cancel_job`. -/
lemma step_cancel {i : ℕ} {w w' : World Unit} {p : Pc Unit} {x : Input Unit} {c : CancelPc}
    (st : step (fun _ => q) i w p x = some (w', .busy () (.cancel c))) :
    (∃ j e, x = .start () (.cancelJob j) e ∧ c = .get j ∧ w' = w) ∨
    (∃ c₀ e, p = .busy () (.cancel c₀) ∧ x = .go e ∧ (c₀.code q).outcome i w.store = .goto c ∧
      w' = { w with store := (c₀.code q).cmd.effect i w.store }) := by
  rcases step_busy st with ⟨c', e, rfl, rfl, poss, hb, rfl⟩ | ⟨o, e, rfl, rfl, g, rfl⟩ |
    ⟨p, p', rfl, rfl, hf, eq, rfl⟩
  · cases hb
    exact .inl ⟨_, e, rfl, rfl, rfl⟩
  · cases g with
    | cancel g => exact .inr ⟨_, e, rfl, rfl, g, rfl⟩
  · cases eq

/-- `cancel_job` returns `Ok` after its `HDEL`. -/
lemma returnsCancel_step {i : ℕ} {w w' : World Unit} {p p' : Pc Unit} {x : Input Unit} {j : JobId}
    (st : step (fun _ => q) i w p x = some (w', p')) (h : returnsCancel j ⟨i, p, x, p'⟩ = true) :
    ∃ e, p = .busy () (.cancel (.hdel j)) ∧ x = .go e := by
  unfold returnsCancel at h
  split at h
  · rename_i n c n' hp hp'
    simp only at hp hp'
    subst hp hp'
    rcases step_cases st with ⟨_, _, _, eq, -⟩ | ⟨q, o, e, eq, rfl, rfl, hr⟩ |
      ⟨q, o, eq, rfl, rfl, hr⟩ | ⟨q, o, eq, rfl, rfl, hr⟩ | ⟨_, eq, -⟩ <;> cases eq
    · refine ⟨e, ?_, rfl⟩
      cases c with
      | hdel j' =>
        have ej : j' = j := of_decide_eq_true h
        rw [ej]
      | _ => cases hr
    · cases hr
    · cases hr
  · cases h

/-- What a cancellation under way has achieved. -/
structure Cancelling (q : WorkQueue) (s : Conf (World Unit) (Pc Unit)) : Prop where
  known : ∀ {i c}, s.pc i = .busy () (.cancel c) → Known s c.job
  zrem : ∀ {i j p}, s.pc i = .busy () (.cancel (.zrem j p)) →
    ∀ k, j ∈ s.shared.store.zsets k → k = q.pending.key p
  del : ∀ {i j}, s.pc i = .busy () (.cancel (.del j)) → ∀ k, j ∉ s.shared.store.zsets k
  hdel : ∀ {i j}, s.pc i = .busy () (.cancel (.hdel j)) →
    (∀ k, j ∉ s.shared.store.zsets k) ∧ s.shared.store.strs.lookup (q.getJobKey j) = none

/-- The set a cancellation is about to clear is the only one the job can be in. -/
lemma cancelling_zrem (built : Built q name) (co : Coherent fun _ : Unit => q) {tr s}
    (run : Runs (fun _ : Unit => q) (CancelSafe q) tr s) {j : JobId}
    (safe : (Op.cancel (.get j)).cancelSafe q s) {k : String}
    (h : j ∈ s.shared.store.zsets k) :
    k = q.pending.key (readPartition (s.shared.store.strs.lookup (q.getJobKey j))) := by
  cases hv : s.shared.store.strs.lookup (q.getJobKey j) with
  | none => exact safe hv k h
  | some v =>
    obtain ⟨d, rfl, hl⟩ := described_run built co run hv
    exact (placed_run co run).key_of_pending hl h

/-- A cancellation under way stays so. -/
lemma cancelling_step (built : Built q name) (co : Coherent fun _ : Unit => q) {tr s}
    (run : Runs (fun _ : Unit => q) (CancelSafe q) tr s) (inv : Cancelling q s) {i : ℕ}
    {x : Input Unit} {w : World Unit} {p : Pc Unit} (cond : CancelSafe q tr s i x)
    (st : step (fun _ => q) i s.shared (s.pc i) x = some (w, p)) :
    Cancelling q (s.move i w p) where
  known {k c} h := by
    rcases s.move_pc i w p k with ⟨rfl, moved⟩ | ⟨-, moved⟩ <;> rw [moved] at h
    · subst h
      rcases step_cancel st with ⟨j, e, rfl, rfl, -⟩ | ⟨c₀, e, hpc, rfl, g, -⟩
      · exact (cond.1 j e rfl).keep st
      · rw [CancelPc.job_goto g]
        exact (inv.known hpc).keep st
    · exact (inv.known h).keep st
  zrem {k j part} h z hz := by
    rcases s.move_pc i w p k with ⟨rfl, moved⟩ | ⟨-, moved⟩ <;> rw [moved] at h
    · subst h
      rcases step_cancel st with ⟨j, e, rfl, eq, -⟩ | ⟨c₀, e, hpc, rfl, g, rfl⟩
      · cases eq
      · obtain ⟨rfl, rfl⟩ := CancelPc.goto_zrem g
        exact cancelling_zrem built co run (cond.2 _ e hpc rfl) hz
    · have known := inv.known h
      rcases known.zset_gain st hz with hz | ⟨n, now, c, rest, e, hpc, rfl, rfl, rfl⟩
      · exact inv.zrem h z hz
      · rw [((cond.2 _ e hpc rfl) k).2.2 part h]
  del {k j} h z hz := by
    rcases s.move_pc i w p k with ⟨rfl, moved⟩ | ⟨-, moved⟩ <;> rw [moved] at h
    · subst h
      rcases step_cancel st with ⟨j, e, rfl, eq, -⟩ | ⟨c₀, e, hpc, rfl, g, rfl⟩
      · cases eq
      · obtain ⟨part, rfl⟩ := CancelPc.goto_del g
        rcases (inv.known hpc).zset_gain st hz with hz' | ⟨n, now, c, rest, e, hpc', -⟩
        · rw [inv.zrem hpc z hz'] at hz
          exact Redis.not_mem_zset_zrem (s := s.shared.store) (i := k) hz
        · rw [hpc] at hpc'
          cases hpc'
    · have known := inv.known h
      rcases known.zset_gain st hz with hz | ⟨n, now, c, rest, e, hpc, rfl, -, rfl⟩
      · exact inv.del h z hz
      · exact ((cond.2 _ e hpc rfl) k).1 h
  hdel {k j} h := by
    rcases s.move_pc i w p k with ⟨rfl, moved⟩ | ⟨-, moved⟩ <;> rw [moved] at h
    · subst h
      rcases step_cancel st with ⟨j, e, rfl, eq, -⟩ | ⟨c₀, e, hpc, rfl, g, rfl⟩
      · cases eq
      · obtain rfl := CancelPc.goto_hdel g
        exact ⟨inv.del hpc, by simp [CancelPc.code]⟩
    · have known := inv.known h
      refine ⟨?_, ?_⟩
      · intro z hz
        rcases known.zset_gain st hz with hz | ⟨n, now, c, rest, e, hpc, rfl, -, rfl⟩
        · exact (inv.hdel h).1 z hz
        · exact ((cond.2 _ e hpc rfl) k).2.1 h
      · exact known_undescribed built known (inv.hdel h).2 st

lemma cancelling_run (built : Built q name) (co : Coherent fun _ : Unit => q) {tr s}
    (run : Runs (fun _ : Unit => q) (CancelSafe q) tr s) : Cancelling q s := by
  induction run with
  | nil =>
    refine ⟨?_, ?_, ?_, ?_⟩
    · intro i c h
      cases h
    · intro i j p h
      cases h
    · intro i j h
      cases h
    · intro i j h
      cases h
  | cons run cond st ih => exact cancelling_step built co run ih cond st

/-! ## A cancelled job -/

/-- Nothing is left of the job, and nobody is about to bring it back. -/
structure Buried (q : WorkQueue) (s : Conf (World Unit) (Pc Unit)) (j : JobId) : Prop where
  known : Known s j
  pending : ∀ k, j ∉ s.shared.store.zsets k
  claims : ∀ k, (s.shared.store.hashes k).lookup j = none
  description : s.shared.store.strs.lookup (q.getJobKey j) = none
  revived : ∀ i, ¬ (s.pc i).Revives q j

/-- How a thread comes to bring back a job: it reads the job's claim or description, or finds it
expired. -/
lemma revives_step {s : Conf (World Unit) (Pc Unit)} {j : JobId} {i : ℕ} {x : Input Unit}
    {w : World Unit} {p : Pc Unit} (inv : Placed (fun _ => q) s)
    (st : step (fun _ => q) i s.shared (s.pc i) x = some (w, p)) (h : p.Revives q j) :
    (s.pc i).Revives q j ∨ s.shared.store.strs.lookup (q.getJobKey j) ≠ none ∨
      ∃ k, (s.shared.store.hashes k).lookup j ≠ none := by
  cases h with
  | claim =>
    rcases step_busy st with ⟨c, e, hpc, rfl, poss, hb, rfl⟩ | ⟨o, e, hpc, rfl, g, rfl⟩ |
      ⟨c, c', hpc, rfl, hf, eq, rfl⟩
    · cases hb
    · cases g with
      | claim g =>
        obtain ⟨r, d, rfl, hd, -⟩ := ClaimPc.goto_hset g
        refine .inr (.inl ?_)
        intro none
        rw [none] at hd
        cases hd
    · cases eq
  | reclaim =>
    rcases step_busy st with ⟨c, e, hpc, rfl, poss, hb, rfl⟩ | ⟨o, e, hpc, rfl, g, rfl⟩ |
      ⟨c, c', hpc, rfl, hf, eq, rfl⟩
    · cases hb
    · cases g with
      | reclaim g =>
        obtain ⟨wk, c₀, rfl, hc, -⟩ := ReclaimPc.goto_hset g
        exact .inr (.inr ⟨q.claimsKey, by simp [hc]⟩)
    · cases eq
  | pass due ej =>
    rcases due_gain inv st due with ⟨p₀, hpc, mem, ex, -⟩ | ⟨hpc, hl⟩
    · exact .inl (.pass ⟨p₀, hpc, mem, ex⟩ ej)
    · rw [ej] at hl
      exact .inr (.inr ⟨q.claimsKey, by simp [hl]⟩)

/-- A buried job stays buried. -/
lemma buried_step (built : Built q name) (co : Coherent fun _ : Unit => q)
    {C : Cond (World Unit) (Pc Unit) (Input Unit)} {tr s} (run : Runs (fun _ : Unit => q) C tr s)
    {j : JobId} (bu : Buried q s j) {i : ℕ} {x : Input Unit} {w : World Unit} {p : Pc Unit}
    (st : step (fun _ => q) i s.shared (s.pc i) x = some (w, p)) : Buried q (s.move i w p) j where
  known := bu.known.keep st
  pending k h := by
    rcases bu.known.zset_gain st h with h | ⟨n, now, c, rest, e, hpc, rfl, -, rfl⟩
    · exact bu.pending k h
    · exact bu.revived i (.pass (Pc.due_of_current run hpc rfl) rfl)
  claims k := by
    cases hc : (w.store.hashes k).lookup j with
    | none => exact hc
    | some c =>
      exfalso
      rcases step_hash_gain st hc with h | ⟨n, a, priority, params, e, hpc, rfl, -, -⟩ |
        ⟨n, e, hpc, rfl, -⟩
      · rw [bu.claims k] at h
        cases h
      · exact bu.revived i (hpc ▸ .claim)
      · exact bu.revived i (hpc ▸ .reclaim)
  description := known_undescribed built bu.known bu.description st
  revived k h := by
    rcases s.move_pc i w p k with ⟨rfl, moved⟩ | ⟨-, moved⟩ <;> rw [moved] at h
    · rcases revives_step (placed_run co run) st h with h | h | ⟨z, h⟩
      · exact bu.revived _ h
      · exact h bu.description
      · exact h (bu.claims z)
    · exact bu.revived _ h

/-- The last command of `cancel_job` buries the job. -/
lemma buried_of_hdel (built : Built q name) (co : Coherent fun _ : Unit => q) {tr s}
    (run : Runs (fun _ : Unit => q) (CancelSafe q) tr s) {j : JobId} {i : ℕ} {e : Env}
    {w : World Unit} {p : Pc Unit} (hpc : s.pc i = .busy () (.cancel (.hdel j)))
    (cond : CancelSafe q tr s i (.go e))
    (st : step (fun _ => q) i s.shared (s.pc i) (.go e) = some (w, p)) :
    Buried q (s.move i w p) j := by
  have inv := cancelling_run built co run
  obtain ⟨pending, description⟩ := inv.hdel hpc
  have known := inv.known hpc
  have safe : ∀ i, ¬ (s.pc i).Revives q j := cond.2 _ e hpc rfl
  refine ⟨known.keep st, ?_, ?_, known_undescribed built known description st, ?_⟩
  · intro k h
    rcases known.zset_gain st h with h | ⟨n, now, c, rest, e, hpc', -⟩
    · exact pending k h
    · rw [hpc] at hpc'
      cases hpc'
  · intro k
    cases hc : (w.store.hashes k).lookup j with
    | none => exact hc
    | some c =>
      exfalso
      rcases step_hash_gain st hc with h | ⟨n, a, priority, params, e, hpc', -⟩ | ⟨n, e, hpc', -⟩
      · obtain ⟨n, -, rfl, -⟩ := (placed_run co run).claims h
        rw [hpc] at st
        obtain ⟨rfl, -⟩ := step_go st
        simp [Op.code, CancelPc.code, Instr.map] at hc
      · rw [hpc] at hpc'
        cases hpc'
      · rw [hpc] at hpc'
        cases hpc'
  · intro k h
    rcases s.move_pc i w p k with ⟨rfl, moved⟩ | ⟨-, moved⟩ <;> rw [moved] at h
    · -- the cancelling thread has returned
      rw [hpc] at st
      obtain ⟨-, rfl⟩ := step_go st
      cases h with
      | pass due ej =>
        obtain ⟨o, eq, -⟩ := due
        cases eq
    · exact safe k h

/-- In every run without such overlaps cancellation sticks. -/
theorem cancel_sticks {b : WorkQueueBuilder} {q : WorkQueue} (hq : b.build = .ok q) {tr s}
    (run : Runs (fun _ : Unit => q) (CancelSafe q) tr s) : CancelSticks q tr s := by
  have built := WorkQueueBuilder.build_built hq
  have co := coherent_one hq
  intro post ev pre j htr hev _
  have buried : Buried q s j := by
    have mem : ev ∈ tr := by simp [htr]
    refine Run.after (E := fun ev => returnsCancel j ev = true) (Q := fun s => Buried q s j) ?_ ?_
      run mem hev
    · intro tr s i x w p run h cond st
      obtain ⟨e, hpc, rfl⟩ := returnsCancel_step st h
      exact buried_of_hdel built co run hpc cond st
    · intro tr s i x w p run bu cond st
      exact buried_step built co run bu st
  refine ⟨buried.pending, buried.claims _, ?_, ?_⟩
  · intro i wk e w p hpc st
    rw [hpc] at st
    obtain ⟨-, rfl⟩ := step_go st
    simp [Op.code, ReclaimPc.code, Instr.outcome, Instr.map, Cmd.reply, buried.claims, Out.lift, Next.pc]
  · rintro i a e w p hpc rfl st
    rw [hpc] at st
    obtain ⟨-, rfl⟩ := step_go st
    simp [Op.code, ResolvePc.code, Instr.outcome, Instr.map, Cmd.reply, buried.claims, Out.lift, Next.pc]

/-- A job is enqueued and cancelled. -/
def cancelSchedule : List (ℕ × Input Unit) :=
  callOf 0 (.enqueueJobIn none "" .normal 60) 3 ++ callOf 1 (.cancelJob ⟨0⟩) 4

/-- The thread is enqueuing or cancelling, or does nothing. -/
def Pc.plain : Pc Unit → Bool
  | .busy _ (.enqueue _) => true
  | .busy _ (.cancel _) => true
  | .busy _ _ => false
  | _ => true

lemma Pc.plain_revives {p : Pc Unit} {j : JobId} (h : p.plain = true) : ¬ p.Revives q j := by
  intro r
  cases r with
  | claim => cases h
  | reclaim => cases h
  | pass due ej =>
    obtain ⟨o, rfl, -⟩ := due
    cases h

/-- A cancellation that starts is of a job that was issued, while nothing else is under way. -/
def startsAlone (s : Conf (World Unit) (Pc Unit)) : Input Unit → Bool
  | .start _ (.cancelJob j) _ =>
    (s.shared.issued.lookup j).isSome && (List.range 2).all fun k => !(s.pc k).isBusy
  | _ => true

/-- A cancellation that reads the job finds its description. -/
def Pc.finds (q : WorkQueue) (st : Store JobId Val Claim) : Pc Unit → Bool
  | .busy _ (.cancel (.get j)) => (st.strs.lookup (q.getJobKey j)).isSome
  | _ => true

/-- The cancelled job is gone. -/
theorem cancel_sticks_run :
    ∃ tr s, Runs (fun _ : Unit => testQueue.queue) (CancelSafe testQueue.queue) tr s ∧
      s.pc 1 = .finished () (.cancelled (.ok ())) ∧ Gone testQueue.queue s ⟨0⟩ := by
  have threads : ∀ a ∈ cancelSchedule, a.1 < 2 := by
    decide
  have plain : ∀ m < 9, ∀ k,
      ((finalOf testMachine Conf.initial (cancelSchedule.take m)).pc k).plain = true := by
    intro m lt
    apply finalOf_forall (P := fun _ (p : Pc Unit) => p.plain = true) (b := 2)
    · intro k
      rfl
    · exact fun a ha => threads a (List.mem_of_mem_take ha)
    · revert m
      decide
  have starts : ∀ m < 9, (cancelSchedule[m]?.all fun a =>
      startsAlone (finalOf testMachine Conf.initial (cancelSchedule.take m)) a.2) = true := by
    decide
  have found : ∀ m < 9, (cancelSchedule[m]?.all fun a =>
      ((finalOf testMachine Conf.initial (cancelSchedule.take m)).pc a.1).finds testQueue.queue
        (finalOf testMachine Conf.initial (cancelSchedule.take m)).shared.store) = true := by
    decide
  have run : Runs (fun _ : Unit => testQueue.queue) (CancelSafe testQueue.queue)
      (traceOf testMachine Conf.initial cancelSchedule)
      (finalOf testMachine Conf.initial cancelSchedule) := by
    refine exec_run (by decide) ?_
    intro m i x h
    have lt : m < 9 := (List.getElem?_eq_some_iff.1 h).1
    refine ⟨?_, ?_⟩
    · rintro j e rfl
      have calm := starts m lt
      rw [h] at calm
      obtain ⟨issued, idle⟩ := Bool.and_eq_true_iff.1 calm
      refine ⟨AList.lookup_isSome.1 issued, ?_⟩
      apply finalOf_forall (P := fun _ (p : Pc Unit) => ¬ p.enqueues j) (b := 2)
      · rintro k ⟨n, o, eq, -⟩
        cases eq
      · exact fun a ha => threads a (List.mem_of_mem_take ha)
      · rintro k lt ⟨n, o, eq, -⟩
        have no := List.all_eq_true.1 idle k (List.mem_range.2 lt)
        rw [eq] at no
        cases no
    · intro o e hpc hx
      have safe := plain m lt
      have desc := found m lt
      rw [h] at desc
      simp only [Option.all_some, hpc] at desc
      have mine := safe i
      rw [hpc] at mine
      cases o with
      | enqueue p => trivial
      | cancel c =>
        cases c with
        | get j =>
          intro none
          simp only [Pc.finds] at desc
          rw [none] at desc
          cases desc
        | hdel j => exact fun k => Pc.plain_revives (safe k)
        | _ => trivial
      | _ => cases mine
  have sticks := cancel_sticks (b := testQueue) (q := testQueue.queue) rfl run
  have quiet : ∀ i, ((finalOf testMachine Conf.initial cancelSchedule).pc i).isBusy = false := by
    apply finalOf_forall (P := fun _ (p : Pc Unit) => p.isBusy = false) (b := 2)
    · intro k
      rfl
    · exact threads
    · decide
  have split : traceOf testMachine Conf.initial cancelSchedule = [] ++
        ⟨1, .busy () (.cancel (.hdel ⟨0⟩)), .go {}, .finished () (.cancelled (.ok ()))⟩ ::
          (traceOf testMachine Conf.initial cancelSchedule).drop 1 := by
    decide
  have gone := sticks _ _ _ ⟨0⟩ split (by decide) fun i n o h => by
    have no := quiet i
    rw [h] at no
    cases no
  exact ⟨_, _, run, by decide, gone⟩

end ArchipelagoXL.Wq
