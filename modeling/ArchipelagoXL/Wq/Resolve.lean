import ArchipelagoXL.Wq.Fresh

/-!
# Resolving once

`resolve_job` checks the claim with `HGET` and deletes it with a later `HDEL`, so two overlapping calls
can both go through (`resolve_twice`). The other ways to a second resolve are a checker that puts back
a claim it read before the first resolve, and a `reclaim_job` that stores one. When every such step
still finds a claim of its job (`ClaimsStand`), the first `HDEL` leaves the job dead, every later one
would have to find a claim of a dead job, and the commands after it are issued by one thread in the
order of `ResolvePc.rank`.
-/

namespace ArchipelagoXL.Wq

open Redis (Instr Cmd Store)
open Interleave

variable {N : Type} {queues : N → WorkQueue}

/-! ## What a resolve does, as the trace shows it -/

/-- A `resolve_job` for `j` returns `Ok`. -/
def returnsOk (j : JobId) (ev : Event (Pc N) (Input N)) : Bool :=
  match ev.before, ev.after with
  | .busy _ (.resolve p), .finished _ (.resolved (.ok ())) => p.call.jobId = j
  | _, _ => false

/-- A `resolve_job` for `j` stores the result. -/
def storesResult (j : JobId) (ev : Event (Pc N) (Input N)) : Bool :=
  match ev.before, ev.input with
  | .busy _ (.resolve (.set a _ _)), .go _ => a.jobId = j
  | _, _ => false

/-- A `resolve_job` for `j` increments a counter. -/
def countsResult (j : JobId) (ev : Event (Pc N) (Input N)) : Bool :=
  match ev.before, ev.input with
  | .busy _ (.resolve (.incr a _ _)), .go _ => a.jobId = j
  | _, _ => false

/-- A `resolve_job` for `j` publishes the status. -/
def publishesStatus (j : JobId) (ev : Event (Pc N) (Input N)) : Bool :=
  match ev.before, ev.input with
  | .busy _ (.resolve (.publish a _ _)), .go _ => a.jobId = j
  | _, _ => false

/-- The job is resolved at most once. -/
structure ResolvedOnce (tr : List (Event (Pc N) (Input N))) (j : JobId) : Prop where
  ok : tr.countP (returnsOk j) ≤ 1
  stored : tr.countP (storesResult j) ≤ 1
  counted : tr.countP (countsResult j) ≤ 1
  published : tr.countP (publishesStatus j) ≤ 1

/-- Two calls of the worker that holds the claim, the second one's check before the first one's
`HDEL`. -/
def overlapSchedule : List (ℕ × Input Unit) :=
  callOf 0 (.enqueueJobIn none "" .normal 60) 3 ++ callOf 1 (.claimJobIn none "w") 4 ++
  callOf 2 (.resolveJob "w" ⟨0⟩ .success none) 2 ++ callOf 3 (.resolveJob "w" ⟨0⟩ .failure none) 2 ++
  List.replicate 5 (2, .go {}) ++ List.replicate 5 (3, .go {})

/-- Both of the overlapping calls return `Ok`. -/
theorem resolve_twice :
    ¬ ∀ tr s, Runs (fun _ : Unit => testQueue.queue) Cond.any tr s → ∀ j, ResolvedOnce tr j := by
  intro all
  have once := all _ _ (exec_run_any (l := overlapSchedule) (by decide)) ⟨0⟩
  exact absurd once.ok (by decide)

/-! ## The order of the commands -/

/-- The rank of a resolve's command on `j`, from its `HDEL` on. -/
def resolveRank (j : JobId) (ev : Event (Pc N) (Input N)) : Option ℕ :=
  match ev.before, ev.input with
  | .busy _ (.resolve p), .go _ => if p.call.jobId = j ∧ 2 ≤ p.rank then some p.rank else none
  | _, _ => none

/-- The commands of resolves on `j`, the newest first. -/
def ranks (tr : List (Event (Pc N) (Input N))) (j : JobId) : List ℕ :=
  tr.filterMap (resolveRank j)

/-- The thread is resolving `j` and has deleted the claim; its next command has rank `m`. -/
def Pc.past (p : Pc N) (j : JobId) (m : ℕ) : Prop :=
  ∃ n r, p = .busy n (.resolve r) ∧ r.call.jobId = j ∧ r.rank = m ∧ 2 < m

lemma resolveRank_some {j : JobId} {ev : Event (Pc N) (Input N)} {m : ℕ}
    (h : resolveRank j ev = some m) :
    ∃ n r e, ev.before = .busy n (.resolve r) ∧ ev.input = .go e ∧ r.call.jobId = j ∧ r.rank = m ∧
      2 ≤ m := by
  unfold resolveRank at h
  split at h
  · rename_i n r e hb hi
    split at h
    · rename_i hr
      cases h
      exact ⟨n, r, e, hb, hi, hr.1, rfl, hr.2⟩
    · cases h
  · cases h

lemma resolveRank_of {j : JobId} {ev : Event (Pc N) (Input N)} {n : N} {r : ResolvePc} {e : Env}
    (hb : ev.before = .busy n (.resolve r)) (hi : ev.input = .go e) (hj : r.call.jobId = j)
    (hr : 2 ≤ r.rank) : resolveRank j ev = some r.rank := by
  simp [resolveRank, hb, hi, hj, hr]

/-- A thread gets past the `HDEL`, or further, by a command that counts. -/
lemma past_step {i : ℕ} {w w' : World N} {p p' : Pc N} {x : Input N} {j : JobId} {m : ℕ}
    (st : step queues i w p x = some (w', p')) (h : p'.past j m) :
    ∃ n r e, p = .busy n (.resolve r) ∧ x = .go e ∧ r.call.jobId = j ∧ 2 ≤ r.rank ∧ r.rank < m := by
  obtain ⟨n, r', rfl, hj, rfl, hm⟩ := h
  rcases step_busy st with ⟨c, e, rfl, rfl, poss, hb, rfl⟩ | ⟨o, e, rfl, rfl, g, rfl⟩ |
    ⟨c, c', rfl, rfl, hf, eq, rfl⟩
  · cases hb
    cases hm
  · cases g with
    | @resolve r r' g =>
      rw [ResolvePc.call_goto g] at hj
      exact ⟨n, r, e, rfl, rfl, hj, ResolvePc.rank_hdel g hm, ResolvePc.rank_goto g⟩
  · cases eq

/-- A call that returns `Ok` does so at one of its last commands. -/
lemma returnsOk_step {i : ℕ} {w w' : World N} {p p' : Pc N} {x : Input N} {j : JobId}
    (st : step queues i w p x = some (w', p')) (h : returnsOk j ⟨i, p, x, p'⟩ = true) :
    (∃ m, resolveRank j ⟨i, p, x, p'⟩ = some m ∧ 2 < m) ∧ ∀ m, ¬ p'.past j m := by
  unfold returnsOk at h
  split at h
  · rename_i n r n' hp hp'
    simp only at hp hp'
    subst hp hp'
    refine ⟨?_, ?_⟩
    · rcases step_cases st with ⟨_, _, _, eq, -⟩ | ⟨q, o, e, eq, rfl, rfl, hr⟩ |
        ⟨q, o, eq, rfl, rfl, hr⟩ | ⟨q, o, eq, rfl, rfl, hr⟩ | ⟨_, eq, -⟩ <;> cases eq
      · cases ho : (r.code (queues n) e).outcome i w.store with
        | goto r' =>
          simp [Op.code, ho, Out.lift, Next.pc] at hr
        | ret res =>
          simp only [Op.code, Instr.map_outcome, ho, Out.lift, Next.pc, Pc.finished.injEq,
            Ret.resolved.injEq] at hr
          obtain ⟨-, rfl⟩ := hr
          have rank := ResolvePc.ret_ok ho
          have ge : 2 ≤ r.rank := by omega
          exact ⟨r.rank, resolveRank_of rfl rfl (by simpa using h) ge, by omega⟩
      · cases hr
      · cases hr
    · rintro m ⟨n, r, eq, -⟩
      cases eq
  · cases h

/-! ## The condition -/

/-- The job has a claim in the queue's hash. -/
def World.claimed (queues : N → WorkQueue) (w : World N) (n : N) (j : JobId) : Prop :=
  (w.store.hashes (queues n).claimsKey).lookup j ≠ none

/-- What the next command of an operation needs: the claim it is about to delete, store again or put
back is still there, and the job whose claim is deleted is not being handed out again. -/
def Op.claimStands (queues : N → WorkQueue) (s : Conf (World N) (Pc N)) (n : N) : Op → Prop
  | .resolve (.hdel a _) =>
    s.shared.claimed queues n a.jobId ∧ (∀ k, a.jobId ∉ s.shared.store.zsets k) ∧
      ∀ i, ¬ (s.pc i).holds a.jobId
  | .reclaim (.hset j _) => s.shared.claimed queues n j
  | .checker (.zadd _ c _) => s.shared.claimed queues n c.jobId
  | _ => True

/-- Every step acts on a claim that still stands. -/
def ClaimsStand (queues : N → WorkQueue) : Cond (World N) (Pc N) (Input N) := fun _ s i x =>
  ∀ n o e, s.pc i = .busy n o → x = .go e → o.claimStands queues s n

/-- While claims stand, a dead job stays dead. -/
lemma dead_standing {s : Conf (World N) (Pc N)} {j : JobId} (dead : Dead s j) {tr : List _} {i : ℕ}
    {x : Input N} {w : World N} {p : Pc N} (cond : ClaimsStand queues tr s i x)
    (st : step queues i s.shared (s.pc i) x = some (w, p)) : Dead (s.move i w p) j := by
  apply dead_step dead st
  · intro n now c rest e hpc hx ej
    subst ej
    have stands := cond n _ e hpc hx
    exact stands (dead.claims _)
  · intro n c e hpc hx
    have stands := cond n _ e hpc hx
    exact stands (dead.claims _)

/-- The `HDEL` of a resolve leaves its job dead. -/
lemma dead_of_hdel (co : Coherent queues) {C : Cond (World N) (Pc N) (Input N)} {tr s}
    (run : Runs queues C tr s) {i : ℕ} {n : N} {a : Resolve} {d : JobDesc} {e : Env} {w : World N}
    {p : Pc N} (hpc : s.pc i = .busy n (.resolve (.hdel a d)))
    (stands : (Op.resolve (.hdel a d)).claimStands queues s n)
    (st : step queues i s.shared (s.pc i) (.go e) = some (w, p)) :
    Dead (s.move i w p) a.jobId := by
  have inv := placed_run co run
  obtain ⟨hc, hz, hh⟩ := stands
  obtain ⟨c, hc⟩ := Option.ne_none_iff_exists'.1 hc
  have seen : Seen s a.jobId := .claimed hc
  have known := (fresh_run co run).known inv seen
  refine ⟨known.keep st, ?_, ?_, ?_⟩
  · intro k h
    rcases known.zset_gain st h with h | ⟨n', now, c', rest, e', hpc', -⟩
    · exact hz k h
    · rw [hpc] at hpc'
      cases hpc'
  · -- only the hash of the job's own queue could hold a claim of it
    intro k
    cases hk : (w.store.hashes k).lookup a.jobId with
    | none => exact hk
    | some c' =>
      exfalso
      rcases step_hash_gain st hk with h | ⟨n', a', pr, pa, e', hpc', -⟩ | ⟨n', e', hpc', -⟩
      · obtain ⟨n₁, hl₁, rfl, -⟩ := inv.claims h
        obtain ⟨n₂, hl₂, eq, -⟩ := inv.claims hc
        have same : n₁ = n₂ := by
          rw [hl₁] at hl₂
          exact congrArg Prod.fst (Option.some.inj hl₂)
        rw [hpc] at st
        obtain ⟨rfl, -⟩ := step_go st
        rw [same, ← eq] at hk
        simp [Op.code, ResolvePc.code, Instr.map] at hk
      · rw [hpc] at hpc'
        cases hpc'
      · rw [hpc] at hpc'
        cases hpc'
  · intro k h
    rcases s.move_pc i w p k with ⟨rfl, eq⟩ | ⟨-, eq⟩ <;> rw [eq] at h
    · rcases step_holds st h with h | ⟨n', a', r, e', m, hpc', -⟩
      · exact hh _ h
      · rw [hpc] at hpc'
        cases hpc'
    · exact hh _ h

/-! ## Every run -/

/-- The resolves of a job so far: their commands were issued in the order of the ranks, by one thread,
and left the job dead. -/
structure Once (j : JobId) (tr : List (Event (Pc N) (Input N))) (s : Conf (World N) (Pc N)) : Prop where
  falling : (ranks tr j).Pairwise (· > ·)
  ahead : ∀ {k m}, (s.pc k).past j m → ranks tr j ≠ [] ∧ ∀ r ∈ ranks tr j, r < m
  alone : ∀ {k k' m m'}, (s.pc k).past j m → (s.pc k').past j m' → k = k'
  dead : ranks tr j ≠ [] → Dead s j
  done : 0 < tr.countP (returnsOk j) → ranks tr j ≠ [] ∧ ∀ k m, ¬ (s.pc k).past j m
  oks : tr.countP (returnsOk j) ≤ 1

lemma once_initial (j : JobId) : Once j ([] : List (Event (Pc N) (Input N))) Conf.initial where
  falling := .nil
  ahead h := by
    obtain ⟨n, r, eq, -⟩ := h
    cases eq
  alone h := by
    obtain ⟨n, r, eq, -⟩ := h
    cases eq
  dead h := absurd rfl h
  done h := absurd h (by simp)
  oks := by simp

lemma ranks_cons_none {j : JobId} {ev : Event (Pc N) (Input N)} {tr} (h : resolveRank j ev = none) :
    ranks (ev :: tr) j = ranks tr j := by
  simp [ranks, h]

lemma ranks_cons_some {j : JobId} {ev : Event (Pc N) (Input N)} {tr m}
    (h : resolveRank j ev = some m) : ranks (ev :: tr) j = m :: ranks tr j := by
  simp [ranks, h]

/-- A step that is no command of a resolve past its check changes nothing. -/
lemma once_other {j : JobId} {tr} {s : Conf (World N) (Pc N)} (inv : Once j tr s) {i : ℕ}
    {x : Input N} {w : World N} {p : Pc N} (cond : ClaimsStand queues tr s i x)
    (st : step queues i s.shared (s.pc i) x = some (w, p))
    (none : resolveRank j ⟨i, s.pc i, x, p⟩ = none) :
    Once j (⟨i, s.pc i, x, p⟩ :: tr) (s.move i w p) := by
  have was : ∀ {k m}, ((s.move i w p).pc k).past j m → (s.pc k).past j m := by
    intro k m h
    rcases s.move_pc i w p k with ⟨rfl, eq⟩ | ⟨-, eq⟩ <;> rw [eq] at h
    · obtain ⟨n, r, e, hpc, rfl, hj, hr, -⟩ := past_step st h
      rw [resolveRank_of hpc rfl hj hr] at none
      cases none
    · exact h
  have noOk : returnsOk j ⟨i, s.pc i, x, p⟩ = false := by
    cases h : returnsOk j ⟨i, s.pc i, x, p⟩ with
    | false => rfl
    | true =>
      obtain ⟨⟨m, hm, -⟩, -⟩ := returnsOk_step st h
      rw [none] at hm
      cases hm
  have count : (⟨i, s.pc i, x, p⟩ :: tr).countP (returnsOk j) = tr.countP (returnsOk j) := by
    simp [noOk]
  constructor
  · rw [ranks_cons_none none]
    exact inv.falling
  · intro k m h
    rw [ranks_cons_none none]
    exact inv.ahead (was h)
  · intro k k' m m' h h'
    exact inv.alone (was h) (was h')
  · intro h
    rw [ranks_cons_none none] at h
    exact dead_standing (inv.dead h) cond st
  · intro h
    rw [count] at h
    rw [ranks_cons_none none]
    obtain ⟨ne, no⟩ := inv.done h
    exact ⟨ne, fun k m hp => no k m (was hp)⟩
  · rw [count]
    exact inv.oks

/-- The first `HDEL` finds no resolve before it. -/
lemma once_hdel (co : Coherent queues) {C : Cond (World N) (Pc N) (Input N)} {j : JobId} {tr s}
    (run : Runs queues C tr s) (inv : Once j tr s) {i : ℕ} {n : N} {a : Resolve} {d : JobDesc}
    {e : Env} {w : World N} {p : Pc N} (hpc : s.pc i = .busy n (.resolve (.hdel a d)))
    (hj : a.jobId = j) (stands : (Op.resolve (.hdel a d)).claimStands queues s n)
    (st : step queues i s.shared (s.pc i) (.go e) = some (w, p)) :
    Once j (⟨i, s.pc i, .go e, p⟩ :: tr) (s.move i w p) := by
  have rank : resolveRank j ⟨i, s.pc i, .go e, p⟩ = some 2 :=
    resolveRank_of (r := .hdel a d) hpc rfl hj (Nat.le_refl 2)
  have none : ranks tr j = [] := by
    by_contra h
    have gone := (inv.dead h).claims (queues n).claimsKey
    rw [← hj] at gone
    exact stands.1 gone
  have noOk : returnsOk j ⟨i, s.pc i, .go e, p⟩ = false := by
    cases h : returnsOk j ⟨i, s.pc i, .go e, p⟩ with
    | false => rfl
    | true =>
      obtain ⟨⟨m, hm, lt⟩, -⟩ := returnsOk_step st h
      rw [rank] at hm
      cases hm
      omega
  have zero : tr.countP (returnsOk j) = 0 := by
    by_contra h
    exact (inv.done (Nat.pos_of_ne_zero h)).1 none
  have count : (⟨i, s.pc i, .go e, p⟩ :: tr).countP (returnsOk j) = 0 := by
    simp [noOk, zero]
  have only : ∀ {k m}, ((s.move i w p).pc k).past j m → k = i ∧ 2 < m := by
    intro k m h
    rcases s.move_pc i w p k with ⟨rfl, eq⟩ | ⟨-, eq⟩ <;> rw [eq] at h
    · obtain ⟨n', r, e', hpc', -, -, hr, lt⟩ := past_step st h
      exact ⟨rfl, by omega⟩
    · exact absurd none (inv.ahead h).1
  have new : ranks (⟨i, s.pc i, .go e, p⟩ :: tr) j = [2] := by
    rw [ranks_cons_some rank, none]
  constructor
  · rw [new]
    exact List.pairwise_singleton _ _
  · intro k m h
    obtain ⟨-, lt⟩ := only h
    rw [new]
    refine ⟨by simp, ?_⟩
    intro r hr
    rw [List.mem_singleton.1 hr]
    exact lt
  · intro k k' m m' h h'
    rw [(only h).1, (only h').1]
  · intro _
    subst hj
    exact dead_of_hdel co run hpc stands st
  · intro h
    rw [count] at h
    exact absurd h (by simp)
  · rw [count]
    omega

/-- After the `HDEL` the thread that issued it is the only one to go on. -/
lemma once_later {j : JobId} {tr} {s : Conf (World N) (Pc N)} (inv : Once j tr s) {i : ℕ}
    {x : Input N} {w : World N} {p : Pc N} {m : ℕ} (cond : ClaimsStand queues tr s i x)
    (st : step queues i s.shared (s.pc i) x = some (w, p))
    (rank : resolveRank j ⟨i, s.pc i, x, p⟩ = some m) (lt : 2 < m) :
    Once j (⟨i, s.pc i, x, p⟩ :: tr) (s.move i w p) := by
  obtain ⟨n, r, e, hpc, rfl, hj, hr, -⟩ := resolveRank_some rank
  simp only at hpc
  have past : (s.pc i).past j m := ⟨n, r, hpc, hj, hr, lt⟩
  obtain ⟨ne, below⟩ := inv.ahead past
  have only : ∀ {k m'}, ((s.move i w p).pc k).past j m' → k = i ∧ p.past j m' ∧ m < m' := by
    intro k m' h
    rcases s.move_pc i w p k with ⟨rfl, eq⟩ | ⟨nk, eq⟩ <;> rw [eq] at h
    · obtain ⟨n', r', e', hpc', -, -, -, lt'⟩ := past_step st h
      rw [hpc] at hpc'
      cases hpc'
      exact ⟨rfl, h, hr ▸ lt'⟩
    · exact absurd (inv.alone h past) nk
  have zero : tr.countP (returnsOk j) = 0 := by
    by_contra h
    exact (inv.done (Nat.pos_of_ne_zero h)).2 i m past
  have new : ranks (⟨i, s.pc i, .go e, p⟩ :: tr) j = m :: ranks tr j := ranks_cons_some rank
  constructor
  · rw [new]
    exact List.pairwise_cons.2 ⟨fun r hr => below r hr, inv.falling⟩
  · intro k m' h
    obtain ⟨-, -, lt'⟩ := only h
    rw [new]
    refine ⟨by simp, ?_⟩
    intro r hr
    rcases List.mem_cons.1 hr with rfl | hr
    · exact lt'
    · exact (below r hr).trans lt'
  · intro k k' m' m'' h h'
    rw [(only h).1, (only h').1]
  · intro _
    exact dead_standing (inv.dead ne) cond st
  · intro h
    rw [new]
    refine ⟨by simp, ?_⟩
    intro k m' hp
    have ok : returnsOk j ⟨i, s.pc i, .go e, p⟩ = true := by
      by_contra no
      simp [no, zero] at h
    exact (returnsOk_step st ok).2 m' (only hp).2.1
  · rw [List.countP_cons, zero]
    split <;> omega

/-- Every step that acts on a standing claim keeps the resolves in order. -/
lemma once_step (co : Coherent queues) {C : Cond (World N) (Pc N) (Input N)} {j : JobId} {tr s}
    (run : Runs queues C tr s) (inv : Once j tr s) {i : ℕ} {x : Input N} {w : World N} {p : Pc N}
    (cond : ClaimsStand queues tr s i x)
    (st : step queues i s.shared (s.pc i) x = some (w, p)) :
    Once j (⟨i, s.pc i, x, p⟩ :: tr) (s.move i w p) := by
  cases rank : resolveRank j ⟨i, s.pc i, x, p⟩ with
  | none => exact once_other inv cond st rank
  | some m =>
    obtain ⟨n, r, e, hpc, hx, hj, hr, ge⟩ := resolveRank_some rank
    rcases Nat.lt_or_eq_of_le ge with lt | rfl
    · exact once_later inv cond st rank lt
    · obtain ⟨d, eq⟩ := ResolvePc.rank_two hr
      simp only at hpc hx
      subst hx
      rw [eq] at hpc
      exact once_hdel co run inv hpc hj (cond n _ e hpc rfl) st

lemma once_run (co : Coherent queues) {tr s} (run : Runs queues (ClaimsStand queues) tr s)
    (j : JobId) : Once j tr s := by
  induction run with
  | nil => exact once_initial j
  | cons run cond st ih => exact once_step co run ih cond st

/-- Commands that have one rank are issued at most once. -/
lemma Once.countP_le {j : JobId} {tr} {s : Conf (World N) (Pc N)} (inv : Once j tr s)
    {f : Event (Pc N) (Input N) → Bool} {m : ℕ}
    (hf : ∀ ev, f ev = true → resolveRank j ev = some m) : tr.countP f ≤ 1 := by
  have nodup : (ranks tr j).Nodup := inv.falling.imp fun h => Nat.ne_of_gt h
  calc tr.countP f ≤ tr.countP fun ev => resolveRank j ev == some m := by
        apply List.countP_mono_left
        intro ev _ h
        simpa using hf ev h
    _ = (ranks tr j).count m := (List.count_filterMap ..).symm
    _ ≤ 1 := List.nodup_iff_count_le_one.1 nodup m

/-- In every run whose steps act on claims that still stand, every job is resolved at most once. -/
theorem resolved_once {b : WorkQueueBuilder} {q : WorkQueue} (hq : b.build = .ok q) {tr s}
    (run : Runs (fun _ : Unit => q) (ClaimsStand fun _ => q) tr s) (j : JobId) :
    ResolvedOnce tr j := by
  have inv := once_run (coherent_one hq) run j
  refine ⟨inv.oks, ?_, ?_, ?_⟩
  · refine inv.countP_le (m := 4) ?_
    intro ev h
    unfold storesResult at h
    split at h
    · rename_i hb hi
      exact resolveRank_of hb hi (by simpa [ResolvePc.call] using h) (by simp [ResolvePc.rank])
    · cases h
  · refine inv.countP_le (m := 6) ?_
    intro ev h
    unfold countsResult at h
    split at h
    · rename_i hb hi
      exact resolveRank_of hb hi (by simpa [ResolvePc.call] using h) (by simp [ResolvePc.rank])
    · cases h
  · refine inv.countP_le (m := 7) ?_
    intro ev h
    unfold publishesStatus at h
    split at h
    · rename_i hb hi
      exact resolveRank_of hb hi (by simpa [ResolvePc.call] using h) (by simp [ResolvePc.rank])
    · cases h

/-- The points `ClaimsStand` asks nothing of. -/
def Pc.calm : Pc N → Bool
  | .busy _ (.resolve (.hdel _ _)) => false
  | .busy _ (.reclaim (.hset _ _)) => false
  | .busy _ (.checker (.zadd _ _ _)) => false
  | _ => true

lemma claimsStand_of_calm {tr} {s : Conf (World N) (Pc N)} {i : ℕ} {x : Input N}
    (h : (s.pc i).calm = true) : ClaimsStand queues tr s i x := by
  intro n o e hpc hx
  rw [hpc] at h
  cases o with
  | resolve p =>
    cases p with
    | hdel a d => cases h
    | _ => trivial
  | reclaim p =>
    cases p with
    | hset j c => cases h
    | _ => trivial
  | checker p =>
    cases p with
    | zadd now c rest => cases h
    | _ => trivial
  | _ => trivial

/-- A job is enqueued, claimed and resolved. -/
def resolveSchedule : List (ℕ × Input Unit) :=
  callOf 0 (.enqueueJobIn none "" .normal 60) 3 ++ callOf 1 (.claimJobIn none "w") 4 ++
  callOf 2 (.resolveJob "w" ⟨0⟩ .success none) 7

/-- A job that is claimed and resolved, with an `Ok` to count. -/
theorem resolved_once_run :
    ∃ tr s, Runs (fun _ : Unit => testQueue.queue) (ClaimsStand fun _ => testQueue.queue) tr s ∧
      tr.countP (returnsOk ⟨0⟩) = 1 ∧ ResolvedOnce tr ⟨0⟩ := by
  -- the only step with something to meet is the `HDEL`
  have others : ∀ m < 17, m ≠ 12 → (resolveSchedule[m]?.all fun a =>
      ((finalOf testMachine Conf.initial (resolveSchedule.take m)).pc a.1).calm) = true := by
    decide
  have hdel : (finalOf testMachine Conf.initial (resolveSchedule.take 12)).pc 2 =
      .busy () (.resolve (.hdel ⟨"w", ⟨0⟩, .success, none⟩ ⟨"", 0, 60, none⟩)) := by
    decide
  have claim : ((finalOf testMachine Conf.initial (resolveSchedule.take 12)).shared.store.hashes
      testQueue.queue.claimsKey).lookup ⟨0⟩ ≠ none := by
    decide
  have issued : (finalOf testMachine Conf.initial (resolveSchedule.take 12)).shared.issued.lookup
      ⟨0⟩ = some ((), none) := by
    decide
  have pending : ⟨0⟩ ∉ (finalOf testMachine Conf.initial (resolveSchedule.take 12)).shared.store.zsets
      (testQueue.queue.pending.key none) := by
    decide
  have hands : ∀ k, ((finalOf testMachine Conf.initial (resolveSchedule.take 12)).pc k).inHand ≠
      some ⟨0⟩ := by
    apply finalOf_forall (P := fun _ (p : Pc Unit) => p.inHand ≠ some ⟨0⟩) (b := 3)
    · intro k h
      cases h
    · decide
    · decide
  have before : Runs (fun _ : Unit => testQueue.queue) Cond.any _ _ :=
    exec_run_any (l := resolveSchedule.take 12) (by decide)
  have run : Runs (fun _ : Unit => testQueue.queue) (ClaimsStand fun _ => testQueue.queue)
      (traceOf testMachine Conf.initial resolveSchedule)
      (finalOf testMachine Conf.initial resolveSchedule) := by
    refine exec_run (by decide) ?_
    intro m i x h
    by_cases e : m = 12
    · subst e
      cases h
      intro n o e hpc hx
      rw [hdel] at hpc
      cases hpc
      refine ⟨claim, ?_, ?_⟩
      · intro k h
        have placed := placed_run (coherent_one (b := testQueue) (q := testQueue.queue) rfl) before
        rw [placed.key_of_pending issued h] at h
        exact pending h
      · intro k h
        exact hands k (Pc.holds_inHand h)
    · have lt : m < 17 := (List.getElem?_eq_some_iff.1 h).1
      have calm := others m lt e
      rw [h] at calm
      exact claimsStand_of_calm calm
  have once := resolved_once (b := testQueue) (q := testQueue.queue) rfl run ⟨0⟩
  exact ⟨_, _, run, by decide, once⟩

end ArchipelagoXL.Wq
