import ArchipelagoXL.Wq.Custody
import ArchipelagoXL.Wq.Priorities

/-!
# Calls of `claim_job_in`, one after the other

What the claimers of one partition do to its pending set when nobody else takes a step: the set is a
list in the order of scores and ids (`Redis.Lists`), a call takes jobs off its head, and for each of
them reads the description and decides (`WorkQueue.verdict`). `Served` says how far the calls have got:
which jobs were read, what became of each of them, and that the rest is pending and untouched.
`OnTheWay` is the same inside a call, at each of its points, and `onTheWay_step` that every command
leads from one to the next.
-/

namespace ArchipelagoXL.Wq

open Redis (Instr Cmd Store Lists)
open Interleave

variable {q : WorkQueue} {p : Option String}

/-! ## Successive calls -/

/-- The thread that took the last step, unless its call is over. -/
def turn : List (Event (Pc Unit) (Input Unit)) → Option ℕ
  | [] => none
  | ev :: _ => if ev.after.isBusy then some ev.tid else none

/-- Nothing but calls of `claim_job_in` for the partition, a call only when the one before is over. -/
def Successive (q : WorkQueue) (p : Option String) : Cond (World Unit) (Pc Unit) (Input Unit) :=
  fun tr _ i x =>
    (turn tr = none ∧ ∃ part workerId e, x = .start () (.claimJobIn part workerId) e ∧
      q.pending.normalize part = .ok p) ∨
    (turn tr = some i ∧ ∃ e, x = .go e)

/-- The job whose description a claimer reads next, and when. -/
def ClaimPc.reading (e : Env) : ClaimPc → Option (JobId × ℤ)
  | .get _ _ j _ => some (j, e.now)
  | _ => none

/-- The job a step reads the description of. -/
def readingOf (ev : Event (Pc Unit) (Input Unit)) : Option (JobId × ℤ) :=
  match ev.before, ev.input with
  | .busy _ (.claim c), .go e => c.reading e
  | _, _ => none

/-- The jobs whose descriptions were read, in the order of the readings. -/
def reads (tr : List (Event (Pc Unit) (Input Unit))) : List (JobId × ℤ) :=
  tr.reverse.filterMap readingOf

/-- The answer of a call that did not find the set empty. -/
inductive Answer where
  | job (job : Job)
  | failure
deriving DecidableEq

/-- What a call returned, if it is an answer. -/
def answerOf : Except WorkQueueError (Option Job) → Option Answer
  | .ok (some job) => some (.job job)
  | .ok none => none
  | .error _ => some .failure

/-- The answer a step returns. -/
def answeringOf (ev : Event (Pc Unit) (Input Unit)) : Option Answer :=
  match ev.after with
  | .finished _ (.claimed r) => answerOf r
  | _ => none

/-- The answers of the calls, in their order. -/
def answers (tr : List (Event (Pc Unit) (Input Unit))) : List Answer :=
  tr.reverse.filterMap answeringOf

/-! ## What becomes of a job -/

/-- What a claimer makes of a job. -/
inductive Verdict where
  /-- Its description cannot be read: the call fails. -/
  | refused
  /-- Its deadline has passed. -/
  | expired
  | given (params : String)
deriving DecidableEq

/-- The verdict on a job whose description is read at time `now`. -/
def WorkQueue.verdict (q : WorkQueue) (st : Store JobId Val Claim) (j : JobId) (now : ℤ) : Verdict :=
  match q.readDesc (st.strs.lookup (q.getJobKey j)) with
  | .error _ => .refused
  | .ok d => if d.deadline < now then .expired else .given d.params

/-- The answers readings lead to: none for an expired job. -/
def WorkQueue.answersTo (q : WorkQueue) (st : Store JobId Val Claim) (got : List (JobId × ℤ)) :
    List Answer :=
  got.filterMap fun r =>
    match q.verdict st r.1 r.2 with
    | .refused => some .failure
    | .expired => none
    | .given params => some (.job ⟨r.1, params⟩)

/-- What has become of a job that was read, from `st₀` to `st`: an expired one is cancelled, another one
keeps its description, and the one that is given out is claimed with the priority it was pending with. -/
def Fate (q : WorkQueue) (p : Option String) (st₀ st : Store JobId Val Claim) (r : JobId × ℤ) : Prop :=
  match q.verdict st₀ r.1 r.2 with
  | .expired => st.strs.lookup (q.getJobKey r.1) = none ∧ (st.hashes q.claimsKey).lookup r.1 = none
  | .refused => st.strs.lookup (q.getJobKey r.1) = st₀.strs.lookup (q.getJobKey r.1)
  | .given _ => st.strs.lookup (q.getJobKey r.1) = st₀.strs.lookup (q.getJobKey r.1) ∧
    ∃ c, (st.hashes q.claimsKey).lookup r.1 = some c ∧ c.jobId = r.1 ∧ c.partition = p ∧
      (st₀.zsets (q.pending.key p)).lookup r.1 = some c.priority.score

variable {st₀ st st' : Store JobId Val Claim}

lemma Fate.refused {j : JobId} {t : ℤ} (verdict : q.verdict st₀ j t = .refused)
    (desc : st.strs.lookup (q.getJobKey j) = st₀.strs.lookup (q.getJobKey j)) :
    Fate q p st₀ st (j, t) := by
  simp only [Fate, verdict]
  exact desc

lemma Fate.expired {j : JobId} {t : ℤ} (verdict : q.verdict st₀ j t = .expired)
    (desc : st.strs.lookup (q.getJobKey j) = none) (claim : (st.hashes q.claimsKey).lookup j = none) :
    Fate q p st₀ st (j, t) := by
  simp only [Fate, verdict]
  exact ⟨desc, claim⟩

lemma Fate.given {j : JobId} {t : ℤ} {params : String} {c : Claim}
    (verdict : q.verdict st₀ j t = .given params)
    (desc : st.strs.lookup (q.getJobKey j) = st₀.strs.lookup (q.getJobKey j))
    (claim : (st.hashes q.claimsKey).lookup j = some c) (job : c.jobId = j) (part : c.partition = p)
    (score : (st₀.zsets (q.pending.key p)).lookup j = some c.priority.score) :
    Fate q p st₀ st (j, t) := by
  simp only [Fate, verdict]
  exact ⟨desc, c, claim, job, part, score⟩

lemma Fate.congr {r : JobId × ℤ} (h : Fate q p st₀ st r)
    (desc : st'.strs.lookup (q.getJobKey r.1) = st.strs.lookup (q.getJobKey r.1))
    (claim : (st'.hashes q.claimsKey).lookup r.1 = (st.hashes q.claimsKey).lookup r.1) :
    Fate q p st₀ st' r := by
  unfold Fate at h ⊢
  rw [desc, claim]
  exact h

/-- How far the calls have got with the jobs of `l`: those of `got` were read and dealt with, those of
`hand` are being dealt with, those of `rest` are pending. -/
structure Served (q : WorkQueue) (p : Option String) (st₀ : Store JobId Val Claim) (l : List (JobId × ℤ))
    (got : List (JobId × ℤ)) (hand rest : List (JobId × ℤ)) (st : Store JobId Val Claim) : Prop where
  split : ∃ passed, l = passed ++ (hand ++ rest) ∧ passed.map (·.1) = got.map (·.1)
  order : Lists (st.zsets (q.pending.key p)) rest
  fates : ∀ r ∈ got, Fate q p st₀ st r
  untouched : ∀ j, j ∉ got.map (·.1) → j ∉ hand.map (·.1) →
    st.strs.lookup (q.getJobKey j) = st₀.strs.lookup (q.getJobKey j)

namespace Served

variable {l got hand rest : List (JobId × ℤ)} {j : JobId} {n t : ℤ}

/-- Nothing is served yet. -/
lemma initial (h : Lists (st₀.zsets (q.pending.key p)) l) : Served q p st₀ l [] [] l st₀ :=
  ⟨⟨[], rfl, rfl⟩, h, fun _ hr => absurd hr List.not_mem_nil, fun _ _ _ => rfl⟩

/-- A job in hand was not dealt with before and is not pending. -/
lemma fresh (h : Served q p st₀ l got [(j, n)] rest st) (nd : (l.map (·.1)).Nodup) :
    j ∉ got.map (·.1) ∧ j ∉ rest.map (·.1) := by
  obtain ⟨passed, rfl, eq⟩ := h.split
  rw [List.map_append, eq, List.nodup_append] at nd
  obtain ⟨-, later, apart⟩ := nd
  exact ⟨fun mem => apart j mem j (by simp) rfl, (List.nodup_cons.1 later).1⟩

/-- A change that only touches the job in hand, if there is one. -/
lemma aside (h : Served q p st₀ l got hand rest st)
    (apart : ∀ j ∈ got.map (·.1), j ∉ hand.map (·.1))
    (set : ∀ m, (st'.zsets (q.pending.key p)).lookup m = (st.zsets (q.pending.key p)).lookup m)
    (desc : ∀ j, j ∉ hand.map (·.1) →
      st'.strs.lookup (q.getJobKey j) = st.strs.lookup (q.getJobKey j))
    (claim : ∀ j, j ∉ hand.map (·.1) →
      (st'.hashes q.claimsKey).lookup j = (st.hashes q.claimsKey).lookup j) :
    Served q p st₀ l got hand rest st' where
  split := h.split
  order := h.order.congr set
  fates r hr := by
    have out := apart r.1 (List.mem_map_of_mem hr)
    exact (h.fates r hr).congr (desc _ out) (claim _ out)
  untouched j hg hh := (desc j hh).trans (h.untouched j hg hh)

/-- The head of the list is popped. -/
lemma pop (h : Served q p st₀ l got [] ((j, n) :: rest) st) (strs : st'.strs = st.strs)
    (hashes : st'.hashes = st.hashes)
    (set : st'.zsets (q.pending.key p) = (st.zsets (q.pending.key p)).erase j) :
    Served q p st₀ l got [(j, n)] rest st' where
  split := h.split
  order := by
    rw [set]
    exact h.order.tail
  fates r hr := (h.fates r hr).congr (by rw [strs]) (by rw [hashes])
  untouched j' hg _ := by
    rw [strs]
    exact h.untouched j' hg (by simp)

/-- The job in hand is dealt with. -/
lemma settle (h : Served q p st₀ l got [(j, n)] rest st) (fate : Fate q p st₀ st (j, t)) :
    Served q p st₀ l (got ++ [(j, t)]) [] rest st where
  split := by
    obtain ⟨passed, rfl, eq⟩ := h.split
    exact ⟨passed ++ [(j, n)], by simp, by simp [eq]⟩
  order := h.order
  fates r hr := by
    rcases List.mem_append.1 hr with hr | hr
    · exact h.fates r hr
    · rw [List.mem_singleton.1 hr]
      exact fate
  untouched j' hg _ := by
    rw [List.map_append, List.mem_append, not_or] at hg
    exact h.untouched j' hg.1 hg.2

end Served

/-! ## Inside a call -/

/-- How far the calls have got when the one in progress is at a point; `got` are the jobs read and `ret`
the answers given so far. -/
inductive OnTheWay (q : WorkQueue) (p : Option String) (st₀ : Store JobId Val Claim) (l : List (JobId × ℤ))
    (st : Store JobId Val Claim) (got : List (JobId × ℤ)) (ret : List Answer) : ClaimPc → Prop where
  | subscribe {a rest} : a.partition = p → Served q p st₀ l got [] rest st → ret = q.answersTo st₀ got →
    OnTheWay q p st₀ l st got ret (.subscribe a)
  | zpopmin {a r rest} : a.partition = p → Served q p st₀ l got [] rest st → ret = q.answersTo st₀ got →
    OnTheWay q p st₀ l st got ret (.zpopmin a r)
  | recv {a r} : a.partition = p → Served q p st₀ l got [] [] st → ret = q.answersTo st₀ got →
    OnTheWay q p st₀ l st got ret (.recv a r)
  | get {a r j pr rest} : a.partition = p → Served q p st₀ l got [(j, Priority.score pr)] rest st →
    st.strs.lookup (q.getJobKey j) = st₀.strs.lookup (q.getJobKey j) → ret = q.answersTo st₀ got →
    OnTheWay q p st₀ l st got ret (.get a r j pr)
  | cancel {a r c got' t n rest} : a.partition = p → got = got' ++ [(c.job, t)] →
    q.verdict st₀ c.job t = .expired → Served q p st₀ l got' [(c.job, n)] rest st →
    (c = .hdel c.job → st.strs.lookup (q.getJobKey c.job) = none) → ret = q.answersTo st₀ got →
    OnTheWay q p st₀ l st got ret (.cancel a r c)
  | hset {a j pr params got' t rest} : a.partition = p → got = got' ++ [(j, t)] →
    q.verdict st₀ j t = .given params → Served q p st₀ l got' [(j, Priority.score pr)] rest st →
    st.strs.lookup (q.getJobKey j) = st₀.strs.lookup (q.getJobKey j) → ret = q.answersTo st₀ got' →
    OnTheWay q p st₀ l st got ret (.hset a j pr params)

/-- How far the calls have got after a command of the one in progress. -/
def Leads (q : WorkQueue) (p : Option String) (st₀ : Store JobId Val Claim) (l : List (JobId × ℤ))
    (st : Store JobId Val Claim) (got : List (JobId × ℤ)) (ret : List Answer) :
    Out ClaimPc (Option Job) → Prop
  | .goto c => OnTheWay q p st₀ l st got ret c
  | .ret r => ∃ rest, Served q p st₀ l got [] rest st ∧ ret ++ (answerOf r).toList = q.answersTo st₀ got ∧
    (r = .ok none → rest = [])

section Step

variable {name : String} {l got : List (JobId × ℤ)} {ret : List Answer} {e : Env} {i : ℕ}

lemma answersTo_append (q : WorkQueue) (st : Store JobId Val Claim) (got : List (JobId × ℤ)) (j : JobId)
    (t : ℤ) : q.answersTo st (got ++ [(j, t)]) = q.answersTo st got ++
      (match q.verdict st j t with
      | .refused => [.failure]
      | .expired => []
      | .given params => [.job ⟨j, params⟩]) := by
  rw [WorkQueue.answersTo, List.filterMap_append]
  cases h : q.verdict st j t <;> simp [WorkQueue.answersTo, h]

/-- What is popped is the head of the list. -/
lemma leads_zpopmin (nd : (l.map (·.1)).Nodup) (scored : ∀ {j n}, (j, n) ∈ l → ∃ pr : Priority, n = pr.score)
    {a : Claimer} {r : ℕ}
    {rest : List (JobId × ℤ)} (part : a.partition = p) (h : Served q p st₀ l got [] rest st)
    (known : ret = q.answersTo st₀ got) :
    Leads q p st₀ l (((ClaimPc.zpopmin a r).code q e).cmd.effect i st) got ret
      (((ClaimPc.zpopmin a r).code q e).outcome i st) := by
  subst part
  simp only [ClaimPc.code, Instr.outcome, Cmd.reply]
  cases rest with
  | nil =>
    have none_ := h.order.first_nil
    rw [Redis.effect_zpopmin_none none_, none_]
    exact .recv rfl h known
  | cons head rest =>
    obtain ⟨j, n⟩ := head
    have some_ := h.order.first_cons
    have pending : (j, n) ∈ l := by
      obtain ⟨passed, rfl, -⟩ := h.split
      simp
    obtain ⟨pr, rfl⟩ := scored pending
    have popped : Served q a.partition st₀ l got [(j, pr.score)] rest
        ((Cmd.zrem (q.pending.key a.partition) j : Cmd JobId Val Claim).effect i st) :=
      h.pop rfl rfl (by simp)
    rw [Redis.effect_zpopmin_some some_, some_]
    dsimp only
    rw [Priority.ofScore_score]
    exact .get rfl popped (h.untouched j (popped.fresh nd).1 (by simp)) known

/-- The description decides. -/
lemma leads_get {a : Claimer} {r : ℕ} {j : JobId} {pr : Priority} {rest : List (JobId × ℤ)}
    (part : a.partition = p) (h : Served q p st₀ l got [(j, pr.score)] rest st)
    (desc : st.strs.lookup (q.getJobKey j) = st₀.strs.lookup (q.getJobKey j))
    (known : ret = q.answersTo st₀ got) :
    Leads q p st₀ l st (got ++ [(j, e.now)]) ret (((ClaimPc.get a r j pr).code q e).outcome i st) := by
  simp only [ClaimPc.code, Instr.outcome, Cmd.reply]
  cases hd : q.readDesc (st.strs.lookup (q.getJobKey j)) with
  | error err =>
    have verdict : q.verdict st₀ j e.now = .refused := by
      simp [WorkQueue.verdict, ← desc, hd]
    refine ⟨rest, h.settle ?_, ?_, fun eq => by cases eq⟩
    · exact .refused verdict desc
    · simp [answersTo_append, verdict, known, answerOf]
  | ok d =>
    dsimp only
    by_cases late : d.deadline < e.now
    · have verdict : q.verdict st₀ j e.now = .expired := by
        simp [WorkQueue.verdict, ← desc, hd, late]
      rw [if_pos late]
      refine .cancel part rfl verdict h (fun eq => by cases eq) ?_
      simp [answersTo_append, verdict, known]
    · have verdict : q.verdict st₀ j e.now = .given d.params := by
        simp [WorkQueue.verdict, ← desc, hd, late]
      rw [if_neg late]
      exact .hset part rfl verdict h desc known

/-- An expired job is cancelled and the next one popped. -/
lemma leads_cancel (built : Built q name) (nd : (l.map (·.1)).Nodup) {a : Claimer} {r : ℕ} {c : CancelPc}
    {got' rest : List (JobId × ℤ)} {t n : ℤ} (part : a.partition = p) (last : got = got' ++ [(c.job, t)])
    (verdict : q.verdict st₀ c.job t = .expired) (h : Served q p st₀ l got' [(c.job, n)] rest st)
    (gone : c = .hdel c.job → st.strs.lookup (q.getJobKey c.job) = none)
    (known : ret = q.answersTo st₀ got) :
    Leads q p st₀ l (((ClaimPc.cancel a r c).code q e).cmd.effect i st) got ret
      (((ClaimPc.cancel a r c).code q e).outcome i st) := by
  obtain ⟨unread, popped⟩ := h.fresh nd
  have apart : ∀ j ∈ got'.map (·.1), j ∉ [(c.job, n)].map (·.1) := by
    intro j hj eq
    rw [List.mem_singleton.1 eq] at hj
    exact unread hj
  cases c with
  | get j => exact .cancel part last verdict h (fun eq => by cases eq) known
  | zrem j part' =>
    refine .cancel (c := .del j) part last verdict (h.aside apart ?_ (fun _ _ => rfl) fun _ _ => rfl)
      (fun eq => by cases eq) known
    -- the job is in no pending set of this partition any more
    intro m
    show ((Function.update st.zsets (q.pending.key part') _) (q.pending.key p)).lookup m = _
    by_cases same : q.pending.key p = q.pending.key part'
    · rw [same, Function.update_self, ← same]
      by_cases eq : m = j
      · subst eq
        rw [AList.lookup_erase, eq_comm, AList.lookup_eq_none, h.order.mem_keys]
        exact popped
      · exact AList.lookup_erase_ne eq
    · rw [Function.update_of_ne same]
  | del j =>
    refine .cancel (c := .hdel j) part last verdict
      (h.aside apart (fun _ => rfl) (fun j' other => ?_) fun _ _ => rfl) (fun _ => ?_) known
    · refine AList.lookup_erase_ne fun eq => other ?_
      rw [built.jobKey_inj eq]
      exact List.mem_singleton_self _
    · exact AList.lookup_erase _ _
  | hdel j =>
    subst last
    refine .zpopmin part (Served.settle (n := n) (h.aside apart (fun _ => rfl) (fun _ _ => rfl)
      fun j' other => ?_) ?_) known
    · show ((Function.update st.hashes q.claimsKey _) q.claimsKey).lookup j' = _
      rw [Function.update_self]
      exact AList.lookup_erase_ne fun eq => other (by simp [eq, CancelPc.job])
    · refine .expired verdict (gone rfl) ?_
      show ((Function.update st.hashes q.claimsKey _) q.claimsKey).lookup j = none
      rw [Function.update_self]
      exact AList.lookup_erase _ _

/-- A job that is given out is claimed. -/
lemma leads_hset (nd : (l.map (·.1)).Nodup) (listed : Lists (st₀.zsets (q.pending.key p)) l) {a : Claimer}
    {j : JobId} {pr : Priority} {params : String} {got' rest : List (JobId × ℤ)} {t : ℤ}
    (part : a.partition = p) (last : got = got' ++ [(j, t)])
    (verdict : q.verdict st₀ j t = .given params)
    (h : Served q p st₀ l got' [(j, pr.score)] rest st)
    (desc : st.strs.lookup (q.getJobKey j) = st₀.strs.lookup (q.getJobKey j))
    (known : ret = q.answersTo st₀ got') :
    Leads q p st₀ l (((ClaimPc.hset a j pr params).code q e).cmd.effect i st) got ret
      (((ClaimPc.hset a j pr params).code q e).outcome i st) := by
  obtain ⟨unread, -⟩ := h.fresh nd
  have apart : ∀ j' ∈ got'.map (·.1), j' ∉ [(j, pr.score)].map (·.1) := by
    intro j' hj eq
    rw [List.mem_singleton.1 eq] at hj
    exact unread hj
  have pending : (j, pr.score) ∈ l := by
    obtain ⟨passed, rfl, -⟩ := h.split
    simp
  subst last
  refine ⟨rest, Served.settle (n := pr.score) (h.aside apart (fun _ => rfl) (fun _ _ => rfl)
    fun j' other => ?_) ?_, ?_, fun eq => by cases eq⟩
  · show ((Function.update st.hashes q.claimsKey _) q.claimsKey).lookup j' = _
    rw [Function.update_self]
    exact AList.lookup_insert_ne fun eq => other (by simp [eq])
  · refine .given (c := (Claim.new a.workerId j pr e.now).inPartition a.partition) verdict desc ?_ rfl part
      (listed.mem.1 pending)
    show ((Function.update st.hashes q.claimsKey _) q.claimsKey).lookup j = _
    rw [Function.update_self]
    exact AList.lookup_insert _
  · simp [answersTo_append, verdict, known, answerOf]

/-- Every command of a call leads on. -/
theorem onTheWay_step (built : Built q name) (listed : Lists (st₀.zsets (q.pending.key p)) l)
    (scored : ∀ {j n}, (j, n) ∈ l → ∃ pr : Priority, n = pr.score) {c : ClaimPc}
    (h : OnTheWay q p st₀ l st got ret c) :
    Leads q p st₀ l ((c.code q e).cmd.effect i st) (got ++ (c.reading e).toList) ret
      ((c.code q e).outcome i st) := by
  have nd := listed.nodup_fst
  cases h with
  | subscribe part h known =>
    simp only [ClaimPc.reading, Option.toList_none, List.append_nil]
    exact .zpopmin part (h.aside (by simp) (fun _ => rfl) (fun _ _ => rfl) fun _ _ => rfl) known
  | zpopmin part h known =>
    simp only [ClaimPc.reading, Option.toList_none, List.append_nil]
    exact leads_zpopmin nd scored part h known
  | @recv a r part h known =>
    simp only [ClaimPc.reading, Option.toList_none, List.append_nil]
    have same : Served q p st₀ l got [] [] ((Cmd.recv : Cmd JobId Val Claim).effect i st) :=
      h.aside (by simp) (fun _ => rfl) (fun _ _ => rfl) fun _ _ => rfl
    have waits : Leads q p st₀ l ((Cmd.recv : Cmd JobId Val Claim).effect i st) got ret
        (.goto (.recv a r)) := .recv part same known
    have empty : Leads q p st₀ l ((Cmd.recv : Cmd JobId Val Claim).effect i st) got ret
        (.ret (.ok none)) := ⟨[], same, by simp [answerOf, known], fun _ => rfl⟩
    simp only [ClaimPc.code, Instr.outcome]
    split
    · split
      · exact empty
      · exact waits
    · split
      · exact empty
      · exact .zpopmin part same known
  | get part h desc known => exact leads_get part h desc known
  | cancel part last verdict h gone known =>
    simp only [ClaimPc.reading, Option.toList_none, List.append_nil]
    exact leads_cancel built nd part last verdict h gone known
  | hset part last verdict h desc known =>
    simp only [ClaimPc.reading, Option.toList_none, List.append_nil]
    exact leads_hset nd listed part last verdict h desc known

end Step

/-! ## Every run of calls -/

section Runs

variable {l : List (JobId × ℤ)} {s₀ s : Conf (World Unit) (Pc Unit)}
  {tr : List (Event (Pc Unit) (Input Unit))} {name : String}

/-- The last call has found the set empty and given up. -/
def endsEmpty (tr : List (Event (Pc Unit) (Input Unit))) : Prop :=
  ∃ ev, tr.head? = some ev ∧ ev.after = .finished () (.claimed (.ok none))

lemma reads_cons (ev : Event (Pc Unit) (Input Unit)) :
    reads (ev :: tr) = reads tr ++ (readingOf ev).toList := by
  cases h : readingOf ev <;> simp [reads, List.filterMap_append, h]

lemma answers_cons (ev : Event (Pc Unit) (Input Unit)) :
    answers (ev :: tr) = answers tr ++ (answeringOf ev).toList := by
  cases h : answeringOf ev <;> simp [answers, List.filterMap_append, h]

/-- The calls that are over have dealt with the jobs they read, and each has given the answer. -/
structure AllServed (q : WorkQueue) (p : Option String) (st₀ : Store JobId Val Claim)
    (l : List (JobId × ℤ)) (tr : List (Event (Pc Unit) (Input Unit)))
    (st : Store JobId Val Claim) (rest : List (JobId × ℤ)) : Prop where
  served : Served q p st₀ l (reads tr) [] rest st
  answered : answers tr = q.answersTo st₀ (reads tr)
  emptied : endsEmpty tr → rest = []

/-- How far the calls have got in a state of a run. -/
inductive Standing (q : WorkQueue) (p : Option String) (st₀ : Store JobId Val Claim)
    (l : List (JobId × ℤ)) (tr : List (Event (Pc Unit) (Input Unit)))
    (s : Conf (World Unit) (Pc Unit)) : Prop where
  | over_ {rest} : turn tr = none → AllServed q p st₀ l tr s.shared.store rest → Standing q p st₀ l tr s
  | amid {i c} : turn tr = some i → s.pc i = .busy () (.claim c) →
    OnTheWay q p st₀ l s.shared.store (reads tr) (answers tr) c → Standing q p st₀ l tr s

/-- A command of the call in progress. -/
lemma standing_go (built : Built q name) (listed : Lists (s₀.shared.store.zsets (q.pending.key p)) l)
    (scored : ∀ {j n}, (j, n) ∈ l → ∃ pr : Priority, n = pr.score) {i : ℕ} {c : ClaimPc} {e : Env}
    {w : World Unit} {pc : Pc Unit} (hpc : s.pc i = .busy () (.claim c))
    (way : OnTheWay q p s₀.shared.store l s.shared.store (reads tr) (answers tr) c)
    (st : step (fun _ => q) i s.shared (s.pc i) (.go e) = some (w, pc)) :
    Standing q p s₀.shared.store l (⟨i, s.pc i, .go e, pc⟩ :: tr) (s.move i w pc) := by
  have lead := onTheWay_step (e := e) (i := i) built listed scored way
  have read : ∀ pc, reads (⟨i, s.pc i, .go e, pc⟩ :: tr) = reads tr ++ (c.reading e).toList := by
    intro pc
    rw [reads_cons, readingOf, hpc]
  rw [hpc] at st
  obtain ⟨rfl, rfl⟩ := step_go st
  cases ho : (c.code q e).outcome i s.shared.store with
  | goto c' =>
    rw [ho] at lead
    have onward : ((Op.claim c).code q e).outcome i s.shared.store = .goto (.claim c') := by
      simp [Op.code, ho, Out.lift]
    rw [onward]
    refine .amid (i := i) (c := c') rfl (by simp [Next.pc]) ?_
    rw [read, answers_cons]
    simpa [answeringOf, Next.pc, Op.code, Leads] using lead
  | ret r =>
    rw [ho] at lead
    have back : ((Op.claim c).code q e).outcome i s.shared.store = .ret (.claimed r) := by
      simp [Op.code, ho, Out.lift]
    rw [back]
    obtain ⟨rest, served, answered, emptied⟩ := lead
    refine .over_ rfl (show AllServed q p s₀.shared.store l _ _ rest from ⟨?_, ?_, ?_⟩)
    · rw [read]
      exact served
    · rw [read, answers_cons]
      exact answered
    · rintro ⟨ev, eq, after⟩
      cases eq
      cases after
      exact emptied rfl

/-- Along every run of calls the jobs are served in their order. -/
theorem standing_run (built : Built q name) (listed : Lists (s₀.shared.store.zsets (q.pending.key p)) l)
    (scored : ∀ {j n}, (j, n) ∈ l → ∃ pr : Priority, n = pr.score)
    (run : Run (step fun _ => q) (Successive q p) s₀ tr s) : Standing q p s₀.shared.store l tr s := by
  induction run with
  | nil =>
    refine .over_ rfl (show AllServed q p s₀.shared.store l _ _ l from ⟨Served.initial listed, rfl, ?_⟩)
    rintro ⟨ev, eq, -⟩
    cases eq
  | @cons tr s i x w pc run cond st ih =>
    rcases cond with ⟨idle, part, workerId, e, rfl, norm⟩ | ⟨mine, e, rfl⟩
    · cases ih with
      | amid busy => rw [idle] at busy; cases busy
      | @over_ rest _ all =>
        rcases step_cases st with ⟨n, c, e', hpc, eq, -, rfl, rfl⟩ | ⟨_, _, _, -, eq, -⟩ |
          ⟨_, _, -, eq, -⟩ | ⟨_, _, -, eq, -⟩ | ⟨_, -, eq, -⟩ <;> cases eq
        have begins : (Call.claimJobIn part workerId).begin q e =
            .goto (.claim (.subscribe ⟨p, workerId⟩)) := by
          simp [Call.begin, norm]
        rw [begins]
        refine .amid (i := i) (c := .subscribe ⟨p, workerId⟩) rfl (by simp [Next.pc]) ?_
        have way : OnTheWay q p s₀.shared.store l s.shared.store (reads tr) (answers tr)
            (.subscribe ⟨p, workerId⟩) := .subscribe rfl all.served all.answered
        rw [reads_cons, answers_cons]
        simpa [readingOf, answeringOf, hpc, Next.pc, World.issue] using way
    · cases ih with
      | over_ idle => rw [idle] at mine; cases mine
      | @amid i' c busy hpc way =>
        rw [busy, Option.some.injEq] at mine
        subst mine
        exact standing_go built listed scored hpc way st

/-! ## Every call comes to its end -/

/-- The commands a call has ahead of it before the next pop, at most. -/
def ClaimPc.ahead : ClaimPc → ℕ
  | .subscribe _ => 2
  | .zpopmin _ _ => 1
  | .get _ _ _ _ => 6
  | .cancel _ _ (.get _) => 5
  | .cancel _ _ (.zrem _ _) => 4
  | .cancel _ _ (.del _) => 3
  | .cancel _ _ (.hdel _) => 2
  | .recv _ _ => 0
  | .hset _ _ _ _ => 1

/-- The same of a thread. -/
def Pc.ahead : Pc Unit → ℕ
  | .busy _ (.claim c) => c.ahead
  | _ => 0

/-- The call of thread `i` is over, or waits for a push with nothing pending. -/
def EndsOrWaits (q : WorkQueue) (p : Option String) (i : ℕ) (s : Conf (World Unit) (Pc Unit)) : Prop :=
  (∃ r, s.pc i = .finished () r) ∨
  (∃ a remaining, s.pc i = .busy () (.claim (.recv a remaining))) ∧
    ∀ j, j ∉ s.shared.store.zsets (q.pending.key p)

/-- The thread takes another step of a call that neither is over nor waits. -/
def GoesOn (q : WorkQueue) (p : Option String) (i : ℕ) (s : Conf (World Unit) (Pc Unit))
    (x : Input Unit) : Prop :=
  ¬ EndsOrWaits q p i s ∧ ∃ e, x = .go e

/-- A claimer puts nothing into a pending set. -/
lemma ClaimPc.keys_le (c : ClaimPc) (e : Env) (i : ℕ) (st : Store JobId Val Claim) (k : String) :
    (((c.code q e).cmd.effect i st).zsets k).keys.length ≤ (st.zsets k).keys.length := by
  have erased : ∀ k' j, ((Function.update st.zsets k' ((st.zsets k').erase j)) k).keys.length ≤
      (st.zsets k).keys.length := by
    intro k' j
    by_cases same : k = k'
    · subst same
      rw [Function.update_self, AList.keys_erase]
      exact List.erase_sublist.length_le
    · rw [Function.update_of_ne same]
  cases c with
  | zpopmin a r =>
    rcases Redis.effect_zpopmin i st (q.pending.key a.partition) with ⟨-, eq⟩ | ⟨j, n, -, eq⟩
    · simp only [ClaimPc.code, eq, le_refl]
    · simp only [ClaimPc.code, eq, Redis.effect_zrem]
      exact erased _ j
  | cancel a r c =>
    cases c with
    | zrem j part => exact erased _ j
    | _ => exact le_refl _
  | _ => exact le_refl _

/-- What is popped is one less. -/
lemma keys_lt_of_popped {k : String} {j : JobId} {n : ℤ} {i : ℕ} {st : Store JobId Val Claim}
    (popped : Redis.first (st.zsets k) = some (j, n)) :
    (((Cmd.zpopmin k : Cmd JobId Val Claim).effect i st).zsets k).keys.length <
      (st.zsets k).keys.length := by
  have inside : j ∈ (st.zsets k).keys := AList.mem_keys.1 (Redis.first_mem_key popped)
  rw [Redis.effect_zpopmin_some popped]
  simp only [Redis.effect_zrem, Function.update_self, AList.keys_erase, List.length_erase_of_mem inside]
  exact Nat.sub_lt (List.length_pos_of_mem inside) Nat.one_pos

/-- A command that is not the last brings the call closer to its end. -/
lemma ClaimPc.closer {c c' : ClaimPc} {e : Env} {i : ℕ} {st : Store JobId Val Claim}
    (part : c.claimer.partition = p) (moves : ∀ a r, c ≠ .recv a r)
    (ho : (c.code q e).outcome i st = .goto c') :
    10 * (((c.code q e).cmd.effect i st).zsets (q.pending.key p)).keys.length + c'.ahead <
      10 * (st.zsets (q.pending.key p)).keys.length + c.ahead := by
  have le := c.keys_le (q := q) e i st (q.pending.key p)
  cases c with
  | subscribe a =>
    cases ho
    simp only [ahead]
    omega
  | zpopmin a r =>
    subst part
    simp only [code, Instr.outcome, Cmd.reply] at ho
    split at ho
    · cases ho
      simp only [ahead]
      omega
    · rename_i j n popped
      have lt := keys_lt_of_popped (i := i) popped
      split at ho <;> cases ho
      simp only [ahead, code, claimer] at lt ⊢
      omega
  | get a r j pr =>
    simp only [code, Instr.outcome] at ho
    split at ho
    · cases ho
    · split at ho <;> cases ho <;> simp only [ahead] <;> omega
  | cancel a r c =>
    cases c <;> cases ho <;> simp only [ahead] <;> omega
  | recv a r => exact absurd rfl (moves a r)
  | hset a j pr params => cases ho

lemma OnTheWay.claimer {st₀ st : Store JobId Val Claim} {got : List (JobId × ℤ)} {ret : List Answer}
    {c : ClaimPc} (h : OnTheWay q p st₀ l st got ret c) : c.claimer.partition = p := by
  cases h <;> assumption

/-- A call that goes on comes closer to its end. -/
lemma goesOn_closer (built : Built q name) (listed : Lists (s₀.shared.store.zsets (q.pending.key p)) l)
    (scored : ∀ {j n}, (j, n) ∈ l → ∃ pr : Priority, n = pr.score) {i : ℕ}
    (run : Run (step fun _ => q) (Successive q p) s₀ tr s) (mine : turn tr = some i) {x : Input Unit}
    {w : World Unit} {pc : Pc Unit} (on : GoesOn q p i s x)
    (st : step (fun _ => q) i s.shared (s.pc i) x = some (w, pc)) :
    (EndsOrWaits q p i (s.move i w pc) ∨ turn (⟨i, s.pc i, x, pc⟩ :: tr) = some i) ∧
    10 * (w.store.zsets (q.pending.key p)).keys.length + pc.ahead <
      10 * (s.shared.store.zsets (q.pending.key p)).keys.length + (s.pc i).ahead := by
  obtain ⟨unfinished, e, rfl⟩ := on
  cases standing_run built listed scored run with
  | over_ idle => rw [idle] at mine; cases mine
  | @amid i' c busy hpc way =>
    rw [busy, Option.some.injEq] at mine
    subst mine
    have moves : ∀ a r, c ≠ .recv a r := by
      rintro a r rfl
      cases way with
      | recv part h known =>
        refine unfinished (.inr ⟨⟨a, r, hpc⟩, fun j hj => ?_⟩)
        cases h.order.mem_keys.1 hj
    have le := c.keys_le (q := q) e i' s.shared.store (q.pending.key p)
    rw [hpc] at st
    obtain ⟨rfl, rfl⟩ := step_go st
    cases ho : (c.code q e).outcome i' s.shared.store with
    | goto c' =>
      have onward : ((Op.claim c).code q e).outcome i' s.shared.store = .goto (.claim c') := by
        simp [Op.code, ho, Out.lift]
      rw [onward, hpc]
      exact ⟨.inr rfl, ClaimPc.closer way.claimer moves ho⟩
    | ret r =>
      have back : ((Op.claim c).code q e).outcome i' s.shared.store = .ret (.claimed r) := by
        simp [Op.code, ho, Out.lift]
      rw [back, hpc]
      refine ⟨.inl (.inl ⟨.claimed r, by simp [Next.pc]⟩), ?_⟩
      have ahead : 0 < c.ahead := by
        cases c with
        | recv a r => exact absurd rfl (moves a r)
        | cancel a r c => cases c <;> simp [ClaimPc.ahead]
        | _ => simp [ClaimPc.ahead]
      simp only [Next.pc, Pc.ahead, Op.code, Instr.map_cmd]
      omega

/-- A call that nobody disturbs ends, or waits with nothing pending. -/
theorem call_ends (built : Built q name) (listed : Lists (s₀.shared.store.zsets (q.pending.key p)) l)
    (scored : ∀ {j n}, (j, n) ∈ l → ∃ pr : Priority, n = pr.score) {i : ℕ}
    (run : Run (step fun _ => q) (Successive q p) s₀ tr s) (mine : turn tr = some i) :
    Inevitable (step fun _ => q) (GoesOn q p i) i (EndsOrWaits q p i) s := by
  apply Inevitable.of_measure
    (fun s => 10 * (s.shared.store.zsets (q.pending.key p)).keys.length + (s.pc i).ahead)
    (I := fun s => EndsOrWaits q p i s ∨
      ∃ tr, Run (step fun _ => q) (Successive q p) s₀ tr s ∧ turn tr = some i)
  · rintro s (done | ⟨tr, run, mine⟩)
    · exact .inl done
    · by_cases done : EndsOrWaits q p i s
      · exact .inl done
      · refine .inr ⟨.go {}, ?_⟩
        cases standing_run built listed scored run with
        | over_ idle => rw [idle] at mine; cases mine
        | @amid i' c busy hpc way =>
          rw [busy, Option.some.injEq] at mine
          subst mine
          rw [hpc]
          exact ⟨_, ⟨done, _, rfl⟩, rfl⟩
  · rintro s x w pc (done | ⟨tr, run, mine⟩) on st
    · exact absurd done on.1
    · obtain ⟨next, closer⟩ := goesOn_closer built listed scored run mine on st
      refine ⟨next.imp_right fun mine' => ?_, ?_⟩
      · obtain ⟨-, e, rfl⟩ := on
        exact ⟨_, .cons run (.inr ⟨mine, e, rfl⟩) st, mine'⟩
      · rw [Conf.move_shared, Conf.move_pc_self]
        exact closer
  · exact .inr ⟨tr, run, mine⟩

end Runs

/-- Claim order. Where nobody else takes a step, calls of `claim_job_in` for one partition take its jobs
in the order of priorities and ids, each once: the jobs read are a first part of the list, the rest is
pending and untouched, an expired job is cancelled, another one given out and claimed, and a call that
finds nothing has found the set empty; no call goes on for ever while a job is pending. And along every
run a job is pending with the one priority it was enqueued with, so the checker puts it back into the
place this priority and its id give it. -/
theorem claimed_in_order {b : WorkQueueBuilder} (hq : b.build = .ok q) :
    (∀ p s₀, (∀ j n, (s₀.shared.store.zsets (q.pending.key p)).lookup j = some n →
        ∃ pr : Priority, n = pr.score) →
      ∃ l, Lists (s₀.shared.store.zsets (q.pending.key p)) l ∧
        ∀ tr s, Run (step fun _ => q) (Successive q p) s₀ tr s →
          (turn tr = none → ∃ rest, AllServed q p s₀.shared.store l tr s.shared.store rest) ∧
          ∀ i, turn tr = some i →
            Inevitable (step fun _ => q) (GoesOn q p i) i (EndsOrWaits q p i) s) ∧
    ∀ tr s, Runs (fun _ : Unit => q) Cond.any tr s →
      (∀ k j n, (s.shared.store.zsets k).lookup j = some n →
        ∃! pr : Priority, OriginalPriority (fun _ => q) tr j pr ∧ n = pr.score) ∧
      ∀ i now c rest e w pc, s.pc i = .busy () (.checker (.zadd now c rest)) →
        step (fun _ => q) i s.shared (s.pc i) (.go e) = some (w, pc) →
        ∃! pr : Priority, OriginalPriority (fun _ => q) tr c.jobId pr ∧
          ∀ l, Lists ((s.shared.store.zsets (q.pending.key c.partition)).erase c.jobId) l →
            Lists (w.store.zsets (q.pending.key c.partition)) (Redis.intoPlace (c.jobId, pr.score) l) := by
  have built := WorkQueueBuilder.build_built hq
  constructor
  · intro p s₀ scored
    obtain ⟨l, listed⟩ := Redis.exists_lists text_injective (s₀.shared.store.zsets (q.pending.key p))
    have scores : ∀ {j n}, (j, n) ∈ l → ∃ pr : Priority, n = pr.score :=
      fun mem => scored _ _ (listed.mem.1 mem)
    refine ⟨l, listed, fun tr s run => ⟨fun idle => ?_, fun i mine => ?_⟩⟩
    · cases standing_run built listed scores run with
      | over_ _ all => exact ⟨_, all⟩
      | amid busy => rw [idle] at busy; cases busy
    · exact call_ends built listed scores run mine
  · intro tr s run
    refine ⟨fun k j n h => ?_, fun i now c rest e w pc hpc st => ?_⟩
    · obtain ⟨pr, known, eq⟩ := (ranked_run run).pending h
      exact ⟨pr, ⟨known, eq⟩, fun pr' h => originalPriority_unique run h.1 known⟩
    · obtain ⟨pr, known, place⟩ := put_back run hpc st
      exact ⟨pr, ⟨known, place⟩, fun pr' h => originalPriority_unique run h.1 known⟩

/-- Two jobs, the first of them past its deadline when it is claimed. -/
def twoJobs : List (ℕ × Input Unit) :=
  callOf 0 (.enqueueJobIn none "late" .high 1) 3 ++
    callOf 1 (.enqueueJobIn none "job" .normal 60) 3 { fresh := ⟨1⟩ }

/-- A worker asks for a job at time 5. -/
def oneClaim : List (ℕ × Input Unit) := callOf 2 (.claimJobIn none "w") 10 { now := 5 }

/-- `Successive` for the default partition, as a test. -/
def successiveBy (tr : List (Event (Pc Unit) (Input Unit))) (a : ℕ × Input Unit) : Bool :=
  match a.2 with
  | .start _ (.claimJobIn none _) _ => turn tr = none
  | .go _ => turn tr = some a.1
  | _ => false

lemma successive_of_successiveBy {tr : List (Event (Pc Unit) (Input Unit))}
    {s : Conf (World Unit) (Pc Unit)} {i : ℕ} {x : Input Unit} (h : successiveBy tr (i, x) = true) :
    Successive q none tr s i x := by
  unfold successiveBy at h
  split at h
  · rename_i w e eq
    exact .inl ⟨of_decide_eq_true h, none, w, e, eq, rfl⟩
  · rename_i e eq
    exact .inr ⟨of_decide_eq_true h, e, eq⟩
  · cases h

/-- The expired job is skipped and the other one given out. -/
theorem claimed_in_order_late :
    ∃ s₀ l tr s rest, AllServed testQueue.queue none s₀ l tr s rest ∧
      Lists (s₀.zsets (testQueue.queue.pending.key none)) l ∧
      reads tr = [(⟨0⟩, 5), (⟨1⟩, 5)] ∧ answers tr = [.job ⟨⟨1⟩, "job"⟩] := by
  have enqueued : Runs (fun _ : Unit => testQueue.queue) Cond.any (traceOf testMachine Conf.initial twoJobs)
      (finalOf testMachine Conf.initial twoJobs) := exec_run_any (by decide)
  have ordered : ∀ m < 11, (oneClaim[m]?.all (successiveBy (traceOf testMachine
      (finalOf testMachine Conf.initial twoJobs) (oneClaim.take m)))) = true := by
    decide +kernel
  have run : Run testMachine (Successive testQueue.queue none) (finalOf testMachine Conf.initial twoJobs)
      (traceOf testMachine (finalOf testMachine Conf.initial twoJobs) oneClaim)
      (finalOf testMachine (finalOf testMachine Conf.initial twoJobs) oneClaim) := by
    refine exec_run (by decide +kernel) fun m i x h => ?_
    have here := ordered m (List.getElem?_eq_some_iff.1 h).1
    rw [h] at here
    exact successive_of_successiveBy here
  obtain ⟨l, listed, served⟩ := (claimed_in_order (b := testQueue) (q := testQueue.queue) rfl).1 none
    (finalOf testMachine Conf.initial twoJobs) fun j n hn => scored_run enqueued hn
  obtain ⟨rest, all⟩ := (served _ _ run).1 (by decide +kernel)
  exact ⟨_, l, _, _, rest, all, listed, by decide +kernel, by decide +kernel⟩

end ArchipelagoXL.Wq
