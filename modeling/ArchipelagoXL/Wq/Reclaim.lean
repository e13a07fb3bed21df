import ArchipelagoXL.Wq.Placement
import Mathlib.Data.List.Perm.Basic

/-!
# What the reclaim checker puts back

A pass of the checker reads all claims at once and then puts the expired ones back, one after the
other, without reading them again. Between the two a claim can be refreshed, resolved or cancelled, and
the pass puts the job back all the same (`reclaim_stale`). A pass also compares the absolute distance
between its clock and the claim's time, so a claim from the future counts as expired. If nobody else
writes or deletes a claim that some pass is still to put back, and no claim is that far ahead of the
clock of the pass that reads it (`Undisturbed`), then what a pass puts back is in the claims and has
expired.
-/

namespace ArchipelagoXL.Wq

open Redis (Instr Cmd Store)
open Interleave

variable {N : Type} {queues : N → WorkQueue}

/-- Whenever the pipeline of a pass runs for a job, the claims hold an expired claim of the job. -/
def Rightful (q : WorkQueue) (s : Conf (World Unit) (Pc Unit)) : Prop :=
  ∀ i p c, s.pc i = .busy () (.checker p) → p.current = some c →
    ∃ c', (s.shared.store.hashes q.claimsKey).lookup c.jobId = some c' ∧
      q.reclaimTimeout < p.now - c'.time

/-- A pass reads an expired claim, and the job is resolved before the pass puts it back. -/
def staleSchedule : List (ℕ × Input Unit) :=
  callOf 0 (.enqueueJobIn none "" .normal 60) 3 ++ callOf 1 (.claimJobIn none "w") 4 ++
  callOf 2 .reclaimChecker 2 { now := 31000000000 } ++
  callOf 3 (.resolveJob "w" ⟨0⟩ .success none) 7

/-- A pass puts back a job that was resolved after its claim was read. -/
theorem reclaim_stale :
    ¬ ∀ tr s, Runs (fun _ : Unit => testQueue.queue) Cond.any tr s → Rightful testQueue.queue s := by
  intro all
  have right := all _ _ (exec_run_any (l := staleSchedule) (by decide))
  have about : (finalOf testMachine Conf.initial staleSchedule).pc 2 =
      .busy () (.checker (.zadd 31000000000 ⟨⟨0⟩, .normal, "w", 0, none⟩ [])) := by
    decide
  have gone : ((finalOf testMachine Conf.initial staleSchedule).shared.store.hashes
      testQueue.queue.claimsKey).lookup ⟨0⟩ = none := by
    decide
  obtain ⟨c', hc, -⟩ := right 2 _ _ about rfl
  rw [gone] at hc
  cases hc

/-! ## What a pass finds expired -/

/-- A pass only puts back claims it finds expired. -/
lemma current_expired {C : Cond (World N) (Pc N) (Input N)} {tr s} (run : Runs queues C tr s)
    {i : ℕ} {n : N} {p : CheckerPc} {c : Claim} (hpc : s.pc i = .busy n (.checker p))
    (hc : p.current = some c) : c.expired (queues n).reclaimTimeout p.now = true := by
  induction run generalizing i n p c with
  | nil => cases hpc
  | @cons tr s k x w pc run _ st ih =>
    rcases s.move_pc k w pc i with ⟨rfl, moved⟩ | ⟨-, moved⟩ <;> rw [moved] at hpc
    · subst hpc
      rcases step_busy st with ⟨c', e, hpc, rfl, poss, hb, rfl⟩ | ⟨o, e, hpc, rfl, g, rfl⟩ |
        ⟨p₀, p', hpc, rfl, hf, eq, rfl⟩
      · cases hb
        cases hc
      · cases g with
        | checker g =>
          rcases CheckerPc.goto_claims g with ⟨rfl, rfl⟩ | ⟨-, now⟩
          · cases hc
          · rw [now]
            rcases CheckerPc.goto_current g hc with hc | ⟨now', rest, rfl, -, ex⟩
            · exact ih hpc hc
            · exact ex
      · cases eq
        cases p₀ <;> cases hf <;> cases hc
    · exact ih hpc hc

/-- The thread's pass has read the claim, finds it expired, and has not deleted it yet. -/
def Pc.due (queues : N → WorkQueue) (p : Pc N) (n : N) (c : Claim) : Prop :=
  ∃ o, p = .busy n (.checker o) ∧ c ∈ o.claims ∧ c.expired (queues n).reclaimTimeout o.now = true

lemma Pc.due_of_current {C : Cond (World N) (Pc N) (Input N)} {tr s} (run : Runs queues C tr s)
    {i : ℕ} {n : N} {p : CheckerPc} {c : Claim} (hpc : s.pc i = .busy n (.checker p))
    (hc : p.current = some c) : (s.pc i).due queues n c := by
  refine ⟨p, hpc, ?_, current_expired run hpc hc⟩
  cases p <;> cases hc <;> exact List.mem_cons_self

/-- An expired claim of a pass was one before the step, and not the one the pass has just deleted, or is
read from the hash. -/
lemma due_gain {s : Conf (World N) (Pc N)} (inv : Placed queues s) {i : ℕ} {x : Input N}
    {w : World N} {p : Pc N} {n : N} {c : Claim}
    (st : step queues i s.shared (s.pc i) x = some (w, p)) (h : p.due queues n c) :
    (∃ p₀, s.pc i = .busy n (.checker p₀) ∧ c ∈ p₀.claims ∧
      c.expired (queues n).reclaimTimeout p₀.now = true ∧
      ∀ now c₀ rest, p₀ = .hdel now c₀ rest → c ∈ rest) ∨
    (s.pc i = .busy n (.checker .hgetall) ∧
      (s.shared.store.hashes (queues n).claimsKey).lookup c.jobId = some c) := by
  obtain ⟨o', rfl, hc, ex⟩ := h
  rcases step_busy st with ⟨c', e, hpc, rfl, poss, hb, rfl⟩ | ⟨o, e, hpc, rfl, g, rfl⟩ |
    ⟨p₀, p', hpc, rfl, hf, eq, rfl⟩
  · cases hb
    cases hc
  · cases g with
    | @checker p₀ p' g =>
      rcases CheckerPc.goto_claims g with ⟨rfl, rfl⟩ | ⟨sub, now⟩
      · obtain ⟨⟨j, c'⟩, mem, rfl⟩ := List.mem_map.1 hc
        have hl := AList.mem_lookup_iff.2 mem
        obtain ⟨-, -, -, ej⟩ := inv.claims hl
        rw [← ej] at hl
        exact .inr ⟨hpc, hl⟩
      · refine .inl ⟨p₀, hpc, sub hc, now ▸ ex, ?_⟩
        rintro now c₀ rest rfl
        cases g
        exact hc
  · cases eq
    obtain ⟨sub, now⟩ := CheckerPc.fail_claims hf
    refine .inl ⟨p₀, hpc, sub hc, now ▸ ex, ?_⟩
    rintro now c₀ rest rfl
    cases hf
    exact hc

/-- The job whose claim the next command writes or deletes. -/
def Op.claimOf : Op → Option JobId
  | .claim (.hset _ j _ _) => some j
  | .claim (.cancel _ _ (.hdel j)) => some j
  | .reclaim (.hset j _) => some j
  | .resolve (.hdel a _) => some a.jobId
  | .cancel (.hdel j) => some j
  | .checker (.hdel _ c _) => some c.jobId
  | _ => none

/-! ## The condition -/

/-- A claim that a pass is to put back is left alone by all others, and no claim is further ahead of
the clock of the pass that reads it than the timeout. -/
def Undisturbed (queues : N → WorkQueue) : Cond (World N) (Pc N) (Input N) := fun _ s i x =>
  ∀ n o e, s.pc i = .busy n o → x = .go e →
    (∀ k n' c, k ≠ i → (s.pc k).due queues n' c → o.claimOf ≠ some c.jobId) ∧
    (o = .checker .hgetall → ∀ c ∈ (s.shared.store.hashes (queues n).claimsKey).entries.map (·.2),
      c.time ≤ e.now + (queues n).reclaimTimeout)

/-- A claim changes only by a command on it. -/
lemma claimOf_of_loss {i : ℕ} {w w' : World N} {p p' : Pc N} {x : Input N} {k : String} {j : JobId}
    {c : Claim} (st : step queues i w p x = some (w', p'))
    (h : (w.store.hashes k).lookup j = some c) :
    (w'.store.hashes k).lookup j = some c ∨
    ∃ n o e, p = .busy n o ∧ x = .go e ∧ o.claimOf = some j := by
  rcases step_hash_loss st h with h | ⟨n, o, e, rfl, rfl, rfl, h⟩
  · exact .inl h
  · refine .inr ⟨n, o, e, rfl, rfl, ?_⟩
    rcases h with ⟨c', hc, -⟩ | ⟨a, d, rfl, rfl⟩ | cn | ⟨now, c, rest, rfl, rfl⟩
    · obtain ⟨-, ⟨a, priority, params, rfl, -⟩ | rfl⟩ := cmd_hset hc
      · rfl
      · rfl
    · rfl
    · rcases cn with rfl | ⟨a, r, rfl⟩
      · rfl
      · rfl
    · rfl

/-! ## A pass and the claims it read -/

/-- A pass has one claim of every job. -/
lemma CheckerPc.goto_nodup {q : WorkQueue} {e : Env} {i : ℕ} {st : Store JobId Val Claim}
    {p p' : CheckerPc} (h : (p.code q e).outcome i st = .goto p')
    (nd : (p.claims.map (·.jobId)).Nodup) (ne : p ≠ .hgetall) :
    (p'.claims.map (·.jobId)).Nodup := by
  cases p with
  | hgetall => exact absurd rfl ne
  | scan now rest =>
    simp only [code, Instr.outcome] at h
    split at h
    · cases h
    · rename_i c hc
      obtain ⟨lt, rfl⟩ := List.getElem?_eq_some_iff.1 hc
      have perm := List.getElem_cons_eraseIdx_perm lt
      have nd' := (perm.map (·.jobId)).nodup_iff.2 nd
      split at h
      · cases h
        exact nd'
      · cases h
        exact (List.nodup_cons.1 nd').2
  | zadd now c rest =>
    cases h
    exact nd
  | del now c rest =>
    cases h
    exact nd
  | hdel now c rest =>
    cases h
    exact (List.nodup_cons.1 nd).2
  | publish now c rest =>
    cases h
    exact nd

lemma CheckerPc.fail_nodup {p p' : CheckerPc} (h : p.fail = .goto p')
    (nd : (p.claims.map (·.jobId)).Nodup) : (p'.claims.map (·.jobId)).Nodup := by
  cases p <;> cases h
  · exact nd
  · exact (List.nodup_cons.1 nd).2
  · exact (List.nodup_cons.1 nd).2
  · exact (List.nodup_cons.1 nd).2
  · exact nd

/-- What a pass knows of the claims it has read and not dealt with yet. -/
structure CheckerPc.Sound (q : WorkQueue) (p : CheckerPc) : Prop where
  nodup : (p.claims.map (·.jobId)).Nodup
  prompt : ∀ c ∈ p.claims, c.time ≤ p.now + q.reclaimTimeout

/-- The claims stored under their own jobs have different jobs. -/
lemma Placed.snapshot_nodup {s : Conf (World N) (Pc N)} (inv : Placed queues s) (k : String) :
    (((s.shared.store.hashes k).entries.map (·.2)).map (·.jobId)).Nodup := by
  have keys : ((s.shared.store.hashes k).entries.map (·.2)).map (·.jobId) =
      (s.shared.store.hashes k).keys := by
    rw [List.map_map]
    apply List.map_congr_left
    rintro ⟨j, c⟩ mem
    obtain ⟨-, -, -, e⟩ := inv.claims (AList.mem_lookup_iff.2 mem)
    exact e
  rw [keys]
  exact AList.keys_nodup _

/-- Going on, a pass keeps what it knows. -/
lemma CheckerPc.Sound.goto {q : WorkQueue} {e : Env} {i : ℕ} {st : Store JobId Val Claim}
    {p p' : CheckerPc} (so : p.Sound q) (h : (p.code q e).outcome i st = .goto p')
    (nd : p = .hgetall → (p'.claims.map (·.jobId)).Nodup)
    (pr : p = .hgetall → ∀ c ∈ p'.claims, c.time ≤ e.now + q.reclaimTimeout) : p'.Sound q := by
  rcases CheckerPc.goto_claims h with ⟨rfl, rfl⟩ | ⟨sub, now⟩
  · exact ⟨nd rfl, pr rfl⟩
  · refine ⟨?_, ?_⟩
    · by_cases e : p = .hgetall
      · exact nd e
      · exact CheckerPc.goto_nodup h so.nodup e
    · intro c hc
      rw [now]
      exact so.prompt c (sub hc)

lemma CheckerPc.Sound.fail {q : WorkQueue} {p p' : CheckerPc} (so : p.Sound q)
    (h : p.fail = .goto p') : p'.Sound q := by
  obtain ⟨sub, now⟩ := CheckerPc.fail_claims h
  refine ⟨CheckerPc.fail_nodup h so.nodup, ?_⟩
  intro c hc
  rw [now]
  exact so.prompt c (sub hc)

/-- A pass is sound, and the expired claims it read are the ones in the hash. -/
structure Current (queues : N → WorkQueue) (s : Conf (World N) (Pc N)) : Prop where
  sound : ∀ {i n p}, s.pc i = .busy n (.checker p) → p.Sound (queues n)
  stored : ∀ {i n c}, (s.pc i).due queues n c →
    (s.shared.store.hashes (queues n).claimsKey).lookup c.jobId = some c

/-- An expired claim of a pass is kept by the pass unless this step deletes it. -/
lemma due_step {s : Conf (World N) (Pc N)} (inv : Placed queues s) (cur : Current queues s) {i : ℕ}
    {x : Input N} {w : World N} {p : Pc N} {n : N} {c : Claim}
    (st : step queues i s.shared (s.pc i) x = some (w, p)) (h : p.due queues n c) :
    (s.shared.store.hashes (queues n).claimsKey).lookup c.jobId = some c ∧
    ∀ n' o e, s.pc i = .busy n' o → x = .go e → o.claimOf ≠ some c.jobId := by
  rcases due_gain inv st h with ⟨p₀, hpc, mem, ex, rest⟩ | ⟨hpc, hl⟩
  · refine ⟨cur.stored ⟨p₀, hpc, mem, ex⟩, ?_⟩
    intro n' o e hpc' hx hco
    rw [hpc] at hpc'
    cases hpc'
    cases p₀ with
    | hdel now c₀ cs =>
      -- the claim just deleted was the only one of its job
      have same : c₀.jobId = c.jobId := Option.some.inj hco
      have nd := (List.nodup_cons.1 (cur.sound hpc).nodup).1
      exact nd (List.mem_map.2 ⟨c, rest now c₀ cs rfl, same.symm⟩)
    | _ => cases hco
  · refine ⟨hl, ?_⟩
    intro n' o e hpc' hx
    rw [hpc] at hpc'
    cases hpc'
    intro eq
    cases eq

/-- An undisturbed step leaves every pass with the claims it read. -/
lemma current_step {s : Conf (World N) (Pc N)} (inv : Placed queues s) (cur : Current queues s)
    {tr : List _} {i : ℕ} {x : Input N} {w : World N} {p : Pc N}
    (cond : Undisturbed queues tr s i x)
    (st : step queues i s.shared (s.pc i) x = some (w, p)) : Current queues (s.move i w p) where
  sound {k n p'} h := by
    rcases s.move_pc i w p k with ⟨rfl, moved⟩ | ⟨-, moved⟩ <;> rw [moved] at h
    · subst h
      rcases step_busy st with ⟨c, e, hpc, rfl, poss, hb, rfl⟩ | ⟨o, e, hpc, rfl, g, rfl⟩ |
        ⟨p, p', hpc, rfl, hf, eq, rfl⟩
      · cases hb
        exact ⟨List.nodup_nil, fun c hc => absurd hc List.not_mem_nil⟩
      · cases g with
        | @checker p p' g =>
          obtain ⟨-, ahead⟩ := cond n _ e hpc rfl
          refine (cur.sound hpc).goto g ?_ ?_
          · rintro rfl
            rcases CheckerPc.goto_claims g with ⟨-, rfl⟩ | ⟨sub, -⟩
            · exact inv.snapshot_nodup _
            · rw [List.subset_nil.1 sub]
              exact List.nodup_nil
          · rintro rfl
            rcases CheckerPc.goto_claims g with ⟨-, rfl⟩ | ⟨sub, -⟩
            · exact ahead rfl
            · rw [List.subset_nil.1 sub]
              simp
      · cases eq
        exact (cur.sound hpc).fail hf
    · exact cur.sound h
  stored {k n c} h := by
    have kept : (s.shared.store.hashes (queues n).claimsKey).lookup c.jobId = some c ∧
        ∀ n' o e, s.pc i = .busy n' o → x = .go e → o.claimOf ≠ some c.jobId := by
      rcases s.move_pc i w p k with ⟨rfl, e⟩ | ⟨ne, e⟩ <;> rw [e] at h
      · exact due_step inv cur st h
      · exact ⟨cur.stored h, fun n' o e hpc hx => (cond n' o e hpc hx).1 k n c ne h⟩
    obtain ⟨hl, none⟩ := kept
    rcases claimOf_of_loss st hl with hl | ⟨n', o, e, hpc, hx, hco⟩
    · exact hl
    · exact absurd hco (none n' o e hpc hx)

lemma current_run (co : Coherent queues) {tr s} (run : Runs queues (Undisturbed queues) tr s) :
    Current queues s := by
  induction run with
  | nil =>
    refine ⟨?_, ?_⟩
    · intro i n p h
      cases h
    · rintro i n c ⟨o, h, -⟩
      cases h
  | cons run cond st ih => exact current_step (placed_run co run) ih cond st

/-- In every undisturbed run the checker only puts back jobs whose claims have expired. -/
theorem reclaim_rightful {b : WorkQueueBuilder} {q : WorkQueue} (hq : b.build = .ok q) {tr s}
    (run : Runs (fun _ : Unit => q) (Undisturbed fun _ => q) tr s) : Rightful q s := by
  intro i p c hpc hc
  have cur := current_run (coherent_one hq) run
  have due := Pc.due_of_current run hpc hc
  refine ⟨c, cur.stored due, ?_⟩
  obtain ⟨p', eq, mem, ex⟩ := due
  rw [hpc] at eq
  cases eq
  have le := (cur.sound hpc).prompt c mem
  simp only [Claim.expired, decide_eq_true_eq] at ex
  omega

/-- A pass finds an expired claim. -/
def expirySchedule : List (ℕ × Input Unit) :=
  callOf 0 (.enqueueJobIn none "" .normal 60) 3 ++ callOf 1 (.claimJobIn none "w") 4 ++
  callOf 2 .reclaimChecker 2 { now := 31000000000 }

/-- The thread is running a pass of the checker. -/
def Pc.checking : Pc N → Bool
  | .busy _ (.checker _) => true
  | _ => false

/-- A thread that is alone with its pass, or that works while there is none, disturbs nobody. -/
lemma undisturbed_of_checking {tr} {s : Conf (World N) (Pc N)} {i : ℕ} {x : Input N}
    (others : ∀ k, k ≠ i → (s.pc k).checking = false)
    (ahead : ∀ n e, s.pc i = .busy n (.checker .hgetall) → x = .go e →
      ∀ c ∈ (s.shared.store.hashes (queues n).claimsKey).entries.map (·.2),
        c.time ≤ e.now + (queues n).reclaimTimeout) :
    Undisturbed queues tr s i x := by
  intro n o e hpc hx
  refine ⟨?_, ?_⟩
  · rintro k n' c ne ⟨o', hk, -⟩
    have no := others k ne
    rw [hk] at no
    cases no
  · rintro rfl
    exact ahead n e hpc hx

/-- A pass that reads the claims finds none from the future. -/
def Pc.readsPast (q : WorkQueue) (st : Store JobId Val Claim) : Pc Unit → Input Unit → Bool
  | .busy _ (.checker .hgetall), .go e =>
    (st.hashes q.claimsKey).entries.all fun c => c.2.time ≤ e.now + q.reclaimTimeout
  | _, _ => true

/-- A pass about to put back an expired claim that nobody touched. -/
theorem reclaim_rightful_run :
    ∃ tr s, Runs (fun _ : Unit => testQueue.queue) (Undisturbed fun _ => testQueue.queue) tr s ∧
      s.pc 2 = .busy () (.checker (.zadd 31000000000 ⟨⟨0⟩, .normal, "w", 0, none⟩ [])) ∧
      Rightful testQueue.queue s := by
  -- thread 2 runs the only pass, and the other threads are done before it begins
  have alone : ∀ m < 12, ∀ k, (expirySchedule[m]?.all fun a => k ≠ a.1) = true →
      ((finalOf testMachine Conf.initial (expirySchedule.take m)).pc k).checking = false := by
    intro m lt
    apply finalOf_forall (P := fun k (p : Pc Unit) =>
      (expirySchedule[m]?.all fun a => k ≠ a.1) = true → p.checking = false) (b := 3)
    · intro k _
      rfl
    · revert m
      decide
    · revert m
      decide
  have read : ∀ m < 12, (expirySchedule[m]?.all fun a =>
      ((finalOf testMachine Conf.initial (expirySchedule.take m)).pc a.1).readsPast testQueue.queue
        (finalOf testMachine Conf.initial (expirySchedule.take m)).shared.store a.2) = true := by
    decide
  have run : Runs (fun _ : Unit => testQueue.queue) (Undisturbed fun _ => testQueue.queue)
      (traceOf testMachine Conf.initial expirySchedule)
      (finalOf testMachine Conf.initial expirySchedule) := by
    refine exec_run (by decide) ?_
    intro m i x h
    have lt : m < 12 := (List.getElem?_eq_some_iff.1 h).1
    apply undisturbed_of_checking
    · intro k ne
      apply alone m lt k
      rw [h]
      simpa using ne
    · intro n e hpc hx c hc
      obtain ⟨en, mem, rfl⟩ := List.mem_map.1 hc
      have old := read m lt
      rw [h] at old
      simp only [Option.all_some, hpc, hx, Pc.readsPast, List.all_eq_true, decide_eq_true_eq] at old
      exact old en mem
  exact ⟨_, _, run, by decide,
    reclaim_rightful (b := testQueue) (q := testQueue.queue) rfl run⟩

end ArchipelagoXL.Wq
