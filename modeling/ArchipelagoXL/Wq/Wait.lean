import ArchipelagoXL.Wq.Flow

/-!
# Waiting for a job while it is resolved

One `wait_for_job` and one `resolve_job` for the same job, in any interleaving of their commands. The
resolver stores the result and the resolved status, publishes the status and then deletes the job and
its result if its callback says so; the waiter checks the job's status with three commands, subscribes
later, and looks at the result and the resolved status once more before it listens.

`Progress` is how far the resolver has got, with the status it settled on. The store is a function of
it (`Ledger`), and what the waiter knows at each of its points agrees with it (`Waiting`): a waiter that
found no job reads a resolved status that is there, and one that listens has not missed the message.
So the waiter never fails, and once the resolver is done it returns the published status, unless one
of its own timeouts has cut the wait before (`no_lost_wakeup`).
-/

namespace ArchipelagoXL.Wq

open Redis (Instr Cmd Store Push)
open Interleave

/-- How far a resolve has got, with the job's final status once it is stored. -/
inductive Progress where
  | unresolved
  /-- After `SET` of the result. -/
  | stored (final : JobStatus)
  /-- After `SETEX` of the resolved status. -/
  | settled (final : JobStatus)
  | published (final : JobStatus)
  /-- After `DEL` of the job. -/
  | dropped (final : JobStatus)
  /-- After `DEL` of the result. -/
  | gone (final : JobStatus)

namespace Progress

/-- The status the resolve has settled on. -/
def final : Progress → Option JobStatus
  | .unresolved => none
  | .stored f | .settled f | .published f | .dropped f | .gone f => some f

/-- The status in the stored result. -/
def result : Progress → Option JobStatus
  | .unresolved | .gone _ => none
  | .stored f | .settled f | .published f | .dropped f => some f

/-- The resolved status that is kept on its own. -/
def resolved : Progress → Option JobStatus
  | .unresolved | .stored _ => none
  | .settled f | .published f | .dropped f | .gone f => some f

/-- The status that was published. -/
def sent : Progress → Option JobStatus
  | .unresolved | .stored _ | .settled _ => none
  | .published f | .dropped f | .gone f => some f

/-- Whether the job's description is still there. -/
def described : Progress → Bool
  | .dropped _ | .gone _ => false
  | _ => true

lemma final_of_result {g : Progress} {f : JobStatus} (h : g.result = some f) : g.final = some f := by
  cases g <;> first | exact h | cases h

lemma final_of_resolved {g : Progress} {f : JobStatus} (h : g.resolved = some f) :
    g.final = some f := by
  cases g <;> first | exact h | cases h

lemma final_of_sent {g : Progress} {f : JobStatus} (h : g.sent = some f) : g.final = some f := by
  cases g <;> first | exact h | cases h

/-- Without a result and without a resolved status nothing was published. -/
lemma sent_none {g : Progress} (h : g.resolved = none) : g.sent = none := by
  cases g <;> first | rfl | cases h

/-- A job that is gone has left its resolved status behind. -/
lemma resolved_of_not_described {g : Progress} (h : g.described = false) :
    ∃ f, g.resolved = some f := by
  cases g <;> first | exact ⟨_, rfl⟩ | cases h

end Progress

/-- The string keys of the job as they are when its resolve has got to `g`. -/
structure Ledger (q : WorkQueue) (j : JobId) (g : Progress) (st : Store JobId Val Claim) : Prop where
  job : (st.strs.lookup (q.getJobKey j)).isSome = g.described
  result : ∃ r : Option String, r.all q.parsesResult = true ∧
    st.strs.lookup (q.getResultKey j) = g.result.map fun f => .result ⟨f, r⟩
  resolved : st.strs.lookup (q.getResolvedKey j) = g.resolved.map fun f => .status f.code

/-- Where the resolver is when it has got to `g`. -/
def ResolverAt (q : WorkQueue) (j : JobId) (p : Pc Unit) : Progress → Prop
  | .unresolved => p = .idle ∨ (∃ err, p = .finished () (.resolved (.error err))) ∨
    ∃ o, p = .busy () (.resolve o) ∧ o.rank ≤ 4 ∧ o.call.jobId = j ∧
      o.call.result.all q.parsesResult = true
  | .stored f => ∃ a c, p = .busy () (.resolve (.setEx a f c)) ∧ a.jobId = j
  | .settled f => ∃ a c, a.jobId = j ∧
    (p = .busy () (.resolve (.incr a f c)) ∨ p = .busy () (.resolve (.publish a f c)))
  | .published _ => p = .finished () (.resolved (.ok ())) ∨
    ∃ a, p = .busy () (.resolve (.delJob a)) ∧ a.jobId = j
  | .dropped _ => ∃ a, p = .busy () (.resolve (.delResult a)) ∧ a.jobId = j
  | .gone _ => p = .finished () (.resolved (.ok ()))

/-- A push the waiter can have been sent. -/
def Heard (q : WorkQueue) (j : JobId) (g : Progress) (push : Push) : Prop :=
  push = .subscribe (q.getResultKey j) ∨
  ∃ f, g.sent = some f ∧ push = .message (q.getResultKey j) f.text

/-- What a waiter knows at each of its points, given how far the resolve has got, whether the waiter is
subscribed and what is in its inbox. -/
def Waiting (q : WorkQueue) (j : JobId) (g : Progress) (subscribed : Prop) (inbox : List Push) :
    WaitPc → Prop
  | .status j' _ s => j' = j ∧ ¬ subscribed ∧ inbox = [] ∧
    match s with
    | .existResult j' | .hexists j' _ | .existJob j' _ _ => j' = j
    | .getResult j' _ isQueued => j' = j ∧ (isQueued = false → g.described = false)
  | .resolved j' => j' = j ∧ g.described = false
  | .subscribe j' _ => j' = j ∧ ¬ subscribed ∧ inbox = []
  | .getResult j' _ | .lateResolved j' _ => j' = j ∧ subscribed ∧ ∀ push ∈ inbox, Heard q j g push
  | .recv j' _ => j' = j ∧ subscribed ∧ (∀ push ∈ inbox, Heard q j g push) ∧
    ∀ f, g.sent = some f → .message (q.getResultKey j) f.text ∈ inbox
  | .unsubscribe j' r => j' = j ∧ ∃ f, g.final = some f ∧ r = .ok (some f)

/-- A timeout check that ends the wait: no push came in time, or too much time has passed. -/
def cuts (p : Pc Unit) (x : Input Unit) : Bool :=
  match p, x with
  | .busy _ (.wait (.recv _ remaining)), .go e => e.timedOut || decide (remaining < e.elapsed)
  | _, _ => false

/-- One of the waiter's timeout checks has ended the wait. -/
def TimedOut (waiter : ℕ) (tr : List (Event (Pc Unit) (Input Unit))) : Prop :=
  ∃ ev ∈ tr, ev.tid = waiter ∧ cuts ev.before ev.input = true

/-- Where the waiter is. -/
def WaiterAt (q : WorkQueue) (j : JobId) (g : Progress) (subscribed : Prop) (inbox : List Push)
    (timedOut : Prop) : Pc Unit → Prop
  | .idle => ¬ subscribed ∧ inbox = []
  | .busy () (.wait p) => Waiting q j g subscribed inbox p
  | .finished () (.waited r) => (∃ f, g.final = some f ∧ r = .ok (some f)) ∨ (r = .ok none ∧ timedOut)
  | _ => False

/-- The resolver has published `f`. -/
def Published (resolver : ℕ) (tr : List (Event (Pc Unit) (Input Unit))) (f : JobStatus) : Prop :=
  ∃ ev ∈ tr, ∃ a cleanup, ev.tid = resolver ∧ ev.before = .busy () (.resolve (.publish a f cleanup))

/-! ## The resolver -/

/-- What one command of the resolver does: it stays where nothing is stored yet, or takes the next of
the steps that are seen from outside. -/
inductive Advances : Progress → Progress → Prop where
  | stay {g} : Advances g g
  | store {f} : Advances .unresolved (.stored f)
  | settle {f} : Advances (.stored f) (.settled f)
  | publish {f} : Advances (.settled f) (.published f)
  | drop {f} : Advances (.published f) (.dropped f)
  | clear {f} : Advances (.dropped f) (.gone f)

section Resolver

variable {q : WorkQueue} {name : String} {j : JobId} {g g' : Progress} {e : Env} {i : ℕ}
  {st : Store JobId Val Claim}

lemma Advances.final (h : Advances g g') {f : JobStatus} (hf : g.final = some f) :
    g'.final = some f := by
  cases h <;> first | exact hf | cases hf

lemma Advances.described (h : Advances g g') (hd : g.described = false) : g'.described = false := by
  cases h <;> first | exact hd | rfl

/-- A ledger depends on the string keys only. -/
lemma Ledger.congr {st' : Store JobId Val Claim} (h : Ledger q j g st) (eq : st'.strs = st.strs) :
    Ledger q j g st' := by
  refine ⟨?_, ?_, ?_⟩
  · rw [eq]
    exact h.job
  · rw [eq]
    exact h.result
  · rw [eq]
    exact h.resolved

lemma Ledger.set (hb : Built q name) (h : Ledger q j .unresolved st) {f : JobStatus}
    {r : Option String} (hr : r.all q.parsesResult = true) :
    Ledger q j (.stored f) ((Cmd.set (q.getResultKey j) (.result ⟨f, r⟩)).effect i st) where
  job := by
    rw [Redis.effect_set, AList.lookup_insert_ne (hb.jobKey_ne_resultKey j j)]
    exact h.job
  result := ⟨r, hr, by simp [Progress.result]⟩
  resolved := by
    rw [Redis.effect_set, AList.lookup_insert_ne (hb.resultKey_ne_resolvedKey j j).symm]
    exact h.resolved

lemma Ledger.setEx (hb : Built q name) {f : JobStatus} (h : Ledger q j (.stored f) st) :
    Ledger q j (.settled f) ((Cmd.setEx (q.getResolvedKey j) (.status f.code)).effect i st) where
  job := by
    rw [Redis.effect_setEx, AList.lookup_insert_ne (hb.jobKey_ne_resolvedKey j j)]
    exact h.job
  result := by
    rw [Redis.effect_setEx, AList.lookup_insert_ne (hb.resultKey_ne_resolvedKey j j)]
    exact h.result
  resolved := by simp [Progress.resolved]

lemma Ledger.delJob (hb : Built q name) {f : JobStatus} (h : Ledger q j (.published f) st) :
    Ledger q j (.dropped f) ((Cmd.del (q.getJobKey j)).effect i st) where
  job := by simp [Progress.described]
  result := by
    rw [Redis.effect_del, AList.lookup_erase_ne (hb.jobKey_ne_resultKey j j).symm]
    exact h.result
  resolved := by
    rw [Redis.effect_del, AList.lookup_erase_ne (hb.jobKey_ne_resolvedKey j j).symm]
    exact h.resolved

lemma Ledger.delResult (hb : Built q name) {f : JobStatus} (h : Ledger q j (.dropped f) st) :
    Ledger q j (.gone f) ((Cmd.del (q.getResultKey j)).effect i st) where
  job := by
    rw [Redis.effect_del, AList.lookup_erase_ne (hb.jobKey_ne_resultKey j j)]
    exact h.job
  result := ⟨none, rfl, by simp [Progress.result]⟩
  resolved := by
    rw [Redis.effect_del, AList.lookup_erase_ne (hb.resultKey_ne_resolvedKey j j).symm]
    exact h.resolved

/-- The inputs of a thread that makes the call `call`, and nothing else. -/
def calls (call : Call → Prop) (x : Input Unit) : Prop :=
  (∃ c e, x = .start () c e ∧ call c) ∨ ∃ e, x = .go e

/-- A call to `resolve_job` for the job. -/
def resolves (j : JobId) (c : Call) : Prop := ∃ wk status r, c = .resolveJob wk j status r

/-- A step of the resolver publishes or keeps to itself. -/
inductive Tells (q : WorkQueue) (j : JobId) (p : Pc Unit) (g g' : Progress)
    (st st' : Store JobId Val Claim) : Prop where
  | nothing : st'.inbox = st.inbox → g'.sent = g.sent →
    (∀ a f c, p ≠ .busy () (.resolve (.publish a f c))) → Tells q j p g g' st st'
  | status {a f c} : p = .busy () (.resolve (.publish a f c)) → g.sent = none → g'.sent = some f →
    (st'.inbox = fun i => if i ∈ st.subs (q.getResultKey j) then
      st.inbox i ++ [.message (q.getResultKey j) f.text] else st.inbox i) → Tells q j p g g' st st'

/-- Up to its `SET` the resolver leaves strings and subscribers alone; it fails or goes on. -/
lemma ResolvePc.early {o : ResolvePc} (hr : o.rank < 4) (q : WorkQueue) (e : Env) (i : ℕ)
    (st : Store JobId Val Claim) :
    (((o.code q e).cmd.effect i st).strs = st.strs ∧ ((o.code q e).cmd.effect i st).subs = st.subs ∧
      ((o.code q e).cmd.effect i st).inbox = st.inbox) ∧
    ((∃ err, (o.code q e).outcome i st = .ret (.error err)) ∨
      ∃ o', (o.code q e).outcome i st = .goto o' ∧ o'.rank ≤ 4 ∧ o'.call = o.call) := by
  cases o with
  | hget a =>
    refine ⟨⟨rfl, rfl, rfl⟩, ?_⟩
    simp only [code, Instr.outcome]
    split
    · exact .inl ⟨_, rfl⟩
    · split
      · exact .inl ⟨_, rfl⟩
      · exact .inr ⟨_, rfl, by simp [rank], rfl⟩
  | get a =>
    refine ⟨⟨rfl, rfl, rfl⟩, ?_⟩
    simp only [code, Instr.outcome]
    split
    · exact .inl ⟨_, rfl⟩
    · exact .inr ⟨_, rfl, by simp [rank], rfl⟩
  | hdel a d =>
    refine ⟨⟨rfl, rfl, rfl⟩, .inr ?_⟩
    simp only [code, Instr.outcome]
    split
    · exact ⟨_, rfl, by simp [rank], rfl⟩
    · exact ⟨_, rfl, by simp [rank], rfl⟩
  | callback a d =>
    refine ⟨⟨rfl, rfl, rfl⟩, .inr ?_⟩
    simp only [code, Instr.outcome]
    split
    · exact ⟨_, rfl, by simp [rank], rfl⟩
    · exact ⟨_, rfl, by simp [rank], rfl⟩
  | _ => simp [rank] at hr

variable {w w' : World Unit} {p p' : Pc Unit} {x : Input Unit}

/-- What a step of the resolver does to the job's keys and to those who listen. -/
structure ResolverStep (q : WorkQueue) (j : JobId) (p p' : Pc Unit) (g g' : Progress)
    (st st' : Store JobId Val Claim) : Prop where
  advances : Advances g g'
  at_ : ResolverAt q j p' g'
  ledger : Ledger q j g' st'
  subs : st'.subs = st.subs
  tells : Tells q j p g g' st st'

/-- Every step of the resolver keeps the ledger. -/
lemma resolver_step (hb : Built q name) (ra : ResolverAt q j p g) (led : Ledger q j g w.store)
    (hx : calls (resolves j) x) (st : step (fun _ => q) i w p x = some (w', p')) :
    ∃ g', ResolverStep q j p p' g g' w.store w'.store := by
  cases g with
  | unresolved =>
    rcases ra with rfl | ⟨err, rfl⟩ | ⟨o, rfl, hr, rfl, hp⟩
    · -- the call itself
      rcases hx with ⟨c, e, rfl, wk, status, r, rfl⟩ | ⟨e, rfl⟩
      · rcases step_cases st with ⟨_, _, _, _, eq, poss, rfl, rfl⟩ | ⟨_, _, _, eq, -⟩ | ⟨_, _, eq, -⟩ |
          ⟨_, _, eq, -⟩ | ⟨_, _, eq, -⟩ <;> cases eq
        have ra' : ResolverAt q j ((Call.begin q e (.resolveJob wk j status r)).pc ()) .unresolved := by
          simp only [Call.begin]
          split
          · exact .inr (.inr ⟨_, rfl, by simp [ResolvePc.rank], rfl, poss⟩)
          · exact .inr (.inl ⟨_, rfl⟩)
        refine ⟨.unresolved, .stay, ra', ?_, ?_, .nothing ?_ rfl (by simp)⟩
        · exact led.congr (by simp)
        · simp
        · simp
      · cases st
    · rcases hx with ⟨c, e, rfl, -⟩ | ⟨e, rfl⟩ <;> cases st
    · rcases hx with ⟨c, e, rfl, -⟩ | ⟨e, rfl⟩
      · cases st
      · obtain ⟨rfl, rfl⟩ := step_go st
        rcases Nat.lt_or_ge o.rank 4 with lt | ge
        · obtain ⟨⟨strs, subs, inbox⟩, out⟩ := ResolvePc.early lt q e i w.store
          have quiet : ∀ a f c, Pc.busy () (Op.resolve o) ≠ .busy () (.resolve (.publish a f c)) := by
            rintro a f c ⟨rfl⟩
            simp [ResolvePc.rank] at lt
          refine ⟨.unresolved, .stay, ?_, led.congr strs, subs, .nothing inbox rfl quiet⟩
          rcases out with ⟨err, ho⟩ | ⟨o', ho, hr', hc⟩
          · exact .inr (.inl ⟨err, by simp [Op.code, ho, Out.lift, Next.pc]⟩)
          · refine .inr (.inr ⟨o', by simp [Op.code, ho, Out.lift, Next.pc], hr', ?_, ?_⟩)
            · rw [hc]
            · rw [hc]
              exact hp
        · -- the `SET` of the result
          cases o with
          | set a f c =>
            exact ⟨.stored f, .store, ⟨a, c, rfl, rfl⟩, led.set (i := i) hb hp, rfl, .nothing rfl rfl (by simp)⟩
          | _ => simp [ResolvePc.rank] at hr ge
  | stored f =>
    obtain ⟨a, c, rfl, rfl⟩ := ra
    rcases hx with ⟨c, e, rfl, -⟩ | ⟨e, rfl⟩
    · cases st
    · obtain ⟨rfl, rfl⟩ := step_go st
      exact ⟨.settled f, .settle, ⟨a, c, rfl, .inl rfl⟩, led.setEx (i := i) hb, rfl, .nothing rfl rfl (by simp)⟩
  | settled f =>
    obtain ⟨a, c, rfl, rfl | rfl⟩ := ra <;> rcases hx with ⟨c, e, rfl, -⟩ | ⟨e, rfl⟩ <;>
      first | cases st; done | obtain ⟨rfl, rfl⟩ := step_go st
    · exact ⟨.settled f, .stay, ⟨a, c, rfl, .inr rfl⟩, led.congr rfl, rfl, .nothing rfl rfl (by simp)⟩
    · refine ⟨.published f, .publish, ?_, ⟨led.job, led.result, led.resolved⟩, rfl,
        .status rfl rfl rfl rfl⟩
      cases c with
      | false => exact .inl rfl
      | true => exact .inr ⟨a, rfl, rfl⟩
  | published f =>
    rcases ra with rfl | ⟨a, rfl, rfl⟩ <;> rcases hx with ⟨c, e, rfl, -⟩ | ⟨e, rfl⟩ <;>
      first | cases st; done | obtain ⟨rfl, rfl⟩ := step_go st
    exact ⟨.dropped f, .drop, ⟨a, rfl, rfl⟩, led.delJob (i := i) hb, rfl, .nothing rfl rfl (by simp)⟩
  | dropped f =>
    obtain ⟨a, rfl, rfl⟩ := ra
    rcases hx with ⟨c, e, rfl, -⟩ | ⟨e, rfl⟩
    · cases st
    · obtain ⟨rfl, rfl⟩ := step_go st
      exact ⟨.gone f, .clear, rfl, led.delResult (i := i) hb, rfl, .nothing rfl rfl (by simp)⟩
  | gone f =>
    cases ra
    rcases hx with ⟨c, e, rfl, -⟩ | ⟨e, rfl⟩ <;> cases st

end Resolver

/-! ## The waiter -/

/-- A call to `wait_for_job` for the job. -/
def waitsFor (j : JobId) (c : Call) : Prop := ∃ timeout, c = .waitForJob j timeout

section Waiter

variable {q : WorkQueue} {name : String} {j : JobId} {g g' : Progress} {e : Env} {i : ℕ}
  {st : Store JobId Val Claim} {w w' : World Unit} {p p' : Pc Unit} {x : Input Unit}
  {timedOut timedOut' : Prop}

/-- The first check of a waiter finds a status, or a job that is gone. -/
lemma gone_of_status_none {isClaimed isQueued : Bool}
    (hq : isQueued = false → g.described = false)
    (h : unresolvedStatus isClaimed isQueued = none) : g.described = false := by
  apply hq
  cases isClaimed with
  | true => cases h
  | false =>
    cases isQueued with
    | true => cases h
    | false => rfl

lemma Ledger.readResult (led : Ledger q j g st) :
    (g.result = none ∧ q.readResult (st.strs.lookup (q.getResultKey j)) = .ok none) ∨
    ∃ f r, g.result = some f ∧ q.readResult (st.strs.lookup (q.getResultKey j)) = .ok (some ⟨f, r⟩) := by
  obtain ⟨r, hr, eq⟩ := led.result
  rw [eq]
  cases g.result with
  | none => exact .inl ⟨rfl, rfl⟩
  | some f => exact .inr ⟨f, r, rfl, by simp [WorkQueue.readResult, hr]⟩

lemma Ledger.readStatus (led : Ledger q j g st) :
    WorkQueue.readStatus (st.strs.lookup (q.getResolvedKey j)) = .ok g.resolved := by
  rw [led.resolved]
  cases g.resolved with
  | none => rfl
  | some f => simp [WorkQueue.readStatus]

@[simp] lemma readPayload_text (f : JobStatus) : readPayload f.text = .ok (some f) := by
  simp [readPayload]

/-- A waiter whose first check is over goes on to subscribe, or reads the resolved status. -/
lemma waiting_checked {s : StatusPc} {t : Option ℕ} {isClaimed isQueued : Bool} {subscribed : Prop}
    {inbox : List Push} {timedOut : Prop}
    (ho : (s.code q).outcome i st = .ret (.ok (unresolvedStatus isClaimed isQueued)))
    (sub : ¬ subscribed) (empty : inbox = []) (hq : isQueued = false → g.described = false) :
    WaiterAt q j g subscribed inbox timedOut
      (((((WaitPc.status j t s).code q e).outcome i st).lift .wait .waited).pc ()) := by
  simp only [WaitPc.code, Instr.map_outcome, ho]
  cases hu : unresolvedStatus isClaimed isQueued with
  | none => exact ⟨rfl, gone_of_status_none hq hu⟩
  | some s => exact ⟨rfl, sub, empty⟩

/-- A command of the waiter keeps what the waiter knows. -/
lemma waiter_go {o : WaitPc} (led : Ledger q j g st)
    (h : Waiting q j g (i ∈ st.subs (q.getResultKey j)) (st.inbox i) o) :
    ((o.code q e).cmd.effect i st).strs = st.strs ∧
    WaiterAt q j g (i ∈ ((o.code q e).cmd.effect i st).subs (q.getResultKey j))
      (((o.code q e).cmd.effect i st).inbox i) (cuts (.busy () (.wait o)) (.go e) = true)
      ((((o.code q e).outcome i st).lift .wait .waited).pc ()) := by
  cases o with
  | status j' t s =>
    obtain ⟨rfl, sub, empty, hs⟩ := h
    cases s with
    | existResult j' =>
      cases hs
      exact ⟨rfl, rfl, sub, empty, rfl⟩
    | hexists j' b =>
      cases hs
      exact ⟨rfl, rfl, sub, empty, rfl⟩
    | existJob j' isResolved isClaimed =>
      cases hs
      refine ⟨rfl, ?_⟩
      have ho : ((StatusPc.existJob j' isResolved isClaimed).code q).outcome i st =
          if isResolved then .goto (.getResult j' isClaimed g.described)
          else .ret (.ok (unresolvedStatus isClaimed g.described)) := by
        rw [← led.job]
        rfl
      cases isResolved with
      | true =>
        simp only [WaitPc.code, Instr.map_outcome, ho]
        exact ⟨rfl, sub, empty, rfl, id⟩
      | false =>
        exact waiting_checked (s := .existJob j' false isClaimed) ho sub empty id
    | getResult j' isClaimed isQueued =>
      obtain ⟨rfl, hq⟩ := hs
      refine ⟨rfl, ?_⟩
      rcases led.readResult with ⟨-, read⟩ | ⟨f, r, hf, read⟩
      · have ho : ((StatusPc.getResult j' isClaimed isQueued).code q).outcome i st =
            .ret (.ok (unresolvedStatus isClaimed isQueued)) := by
          simp [StatusPc.code, Instr.outcome, Cmd.reply, read]
        exact waiting_checked (s := .getResult j' isClaimed isQueued) ho sub empty hq
      · have ho : ((StatusPc.getResult j' isClaimed isQueued).code q).outcome i st =
            .ret (.ok (some f)) := by
          simp [StatusPc.code, Instr.outcome, Cmd.reply, read]
        simp only [WaitPc.code, Instr.map_outcome, ho]
        exact ⟨rfl, sub, empty⟩
  | resolved j' =>
    obtain ⟨rfl, gone⟩ := h
    refine ⟨rfl, ?_⟩
    obtain ⟨f, hf⟩ := Progress.resolved_of_not_described gone
    have ho : ((WaitPc.resolved j').code q e).outcome i st = .ret (.ok (some f)) := by
      simp [WaitPc.code, Instr.outcome, Cmd.reply, led.readStatus, hf]
    rw [ho]
    exact .inl ⟨f, Progress.final_of_resolved hf, rfl⟩
  | subscribe j' t =>
    obtain ⟨rfl, sub, empty⟩ := h
    refine ⟨rfl, rfl, ?_, ?_⟩
    · simp [WaitPc.code, Cmd.effect]
    · intro push hp
      simp only [WaitPc.code, Cmd.effect, Function.update_self, empty, List.nil_append,
        List.mem_singleton] at hp
      exact .inl hp
  | getResult j' t =>
    obtain ⟨rfl, sub, heard⟩ := h
    refine ⟨rfl, ?_⟩
    rcases led.readResult with ⟨-, read⟩ | ⟨f, r, hf, read⟩
    · have ho : ((WaitPc.getResult j' t).code q e).outcome i st = .goto (.lateResolved j' t) := by
        simp [WaitPc.code, Instr.outcome, Cmd.reply, read]
      rw [ho]
      exact ⟨rfl, sub, heard⟩
    · have ho : ((WaitPc.getResult j' t).code q e).outcome i st =
          .goto (.unsubscribe j' (.ok (some f))) := by
        simp [WaitPc.code, Instr.outcome, Cmd.reply, read]
      rw [ho]
      exact ⟨rfl, f, Progress.final_of_result hf, rfl⟩
  | lateResolved j' t =>
    obtain ⟨rfl, sub, heard⟩ := h
    refine ⟨rfl, ?_⟩
    cases hf : g.resolved with
    | none =>
      have ho : ((WaitPc.lateResolved j' t).code q e).outcome i st =
          .goto (.recv j' (t.getD defaultWait)) := by
        simp [WaitPc.code, Instr.outcome, Cmd.reply, led.readStatus, hf]
      rw [ho]
      -- nothing was published yet, so nothing was missed
      refine ⟨rfl, sub, heard, ?_⟩
      intro f hs
      rw [Progress.sent_none hf] at hs
      cases hs
    | some f =>
      have ho : ((WaitPc.lateResolved j' t).code q e).outcome i st =
          .goto (.unsubscribe j' (.ok (some f))) := by
        simp [WaitPc.code, Instr.outcome, Cmd.reply, led.readStatus, hf]
      rw [ho]
      exact ⟨rfl, f, Progress.final_of_resolved hf, rfl⟩
  | recv j' remaining =>
    obtain ⟨rfl, sub, heard, kept⟩ := h
    refine ⟨rfl, ?_⟩
    cases hi : st.inbox i with
    | nil =>
      -- nothing to read: nothing was published either
      have ho : ((WaitPc.recv j' remaining).code q e).outcome i st =
          if e.timedOut then .ret (.ok none) else .goto (.recv j' remaining) := by
        simp [WaitPc.code, Instr.outcome, Cmd.reply, hi]
      rw [ho]
      rw [hi] at kept
      cases ht : e.timedOut with
      | true => exact .inr ⟨rfl, by simp [cuts, ht]⟩
      | false =>
        refine ⟨rfl, sub, ?_, ?_⟩
        · simp [WaitPc.code, Cmd.effect, hi]
        · intro f hf
          exact absurd (kept f hf) List.not_mem_nil
    | cons push rest =>
      rw [hi] at heard kept
      have rest_heard : ∀ push ∈ ((((WaitPc.recv j' remaining).code q e).cmd.effect i st).inbox i),
          Heard q j' g push := by
        simp only [WaitPc.code, Cmd.effect, Function.update_self, hi, List.tail_cons]
        exact fun push hp => heard push (List.mem_cons_of_mem _ hp)
      by_cases late : remaining < e.elapsed
      · have ho : ((WaitPc.recv j' remaining).code q e).outcome i st = .ret (.ok none) := by
          simp [WaitPc.code, Instr.outcome, Cmd.reply, hi, late]
        rw [ho]
        exact .inr ⟨rfl, by simp [cuts, late]⟩
      · rcases heard push List.mem_cons_self with rfl | ⟨f, hf, rfl⟩
        · have ho : ((WaitPc.recv j' remaining).code q e).outcome i st =
              .goto (.recv j' (remaining - e.elapsed)) := by
            simp [WaitPc.code, Instr.outcome, Cmd.reply, hi, late]
          rw [ho]
          refine ⟨rfl, sub, rest_heard, ?_⟩
          intro f hf
          simp only [WaitPc.code, Cmd.effect, Function.update_self, hi, List.tail_cons]
          rcases List.mem_cons.1 (kept f hf) with eq | mem
          · cases eq
          · exact mem
        · have ho : ((WaitPc.recv j' remaining).code q e).outcome i st =
              .goto (.unsubscribe j' (.ok (some f))) := by
            simp [WaitPc.code, Instr.outcome, Cmd.reply, hi, late]
          rw [ho]
          exact ⟨rfl, f, Progress.final_of_sent hf, rfl⟩
  | unsubscribe j' r =>
    obtain ⟨rfl, f, hf, rfl⟩ := h
    exact ⟨rfl, .inl ⟨f, hf, rfl⟩⟩

/-- How far a waiter is from its end, at most, apart from the pushes it has to read. -/
def WaitPc.left : WaitPc → ℕ
  | .status _ _ (.existResult _) => 11
  | .status _ _ (.hexists _ _) => 10
  | .status _ _ (.existJob _ _ _) => 9
  | .status _ _ (.getResult _ _ _) => 8
  | .subscribe _ _ => 7
  | .getResult _ _ => 5
  | .lateResolved _ _ => 4
  | .recv _ _ => 2
  | .unsubscribe _ _ => 1
  | .resolved _ => 1

/-- Every command brings the waiter closer to its end, except for listening when there is nothing to
hear. -/
lemma WaitPc.left_goto {o o' : WaitPc} (h : (o.code q e).outcome i st = .goto o') :
    (∃ j r, o = .recv j r ∧ st.inbox i = []) ∨
    o'.left + (((o.code q e).cmd.effect i st).inbox i).length < o.left + (st.inbox i).length := by
  cases o with
  | status j t s =>
    refine .inr ?_
    simp only [code, Instr.map_outcome] at h
    cases s with
    | existResult j' =>
      cases h
      exact Nat.add_lt_add_right (by simp [left]) _
    | hexists j' b =>
      cases h
      exact Nat.add_lt_add_right (by simp [left]) _
    | existJob j' isResolved isClaimed =>
      refine Nat.add_lt_add_right ?_ _
      split at h
      · rename_i s' hs
        cases h
        simp only [StatusPc.code, Instr.outcome] at hs
        split at hs <;> cases hs
        simp [left]
      · cases h
        simp [left]
      · cases h
        simp [left]
      · cases h
    | getResult j' isClaimed isQueued =>
      refine Nat.add_lt_add_right ?_ _
      split at h
      · rename_i s' hs
        simp only [StatusPc.code, Instr.outcome] at hs
        split at hs <;> cases hs
      · cases h
        simp [left]
      · cases h
        simp [left]
      · cases h
  | resolved j =>
    simp only [code, Instr.outcome] at h
    split at h <;> cases h
  | subscribe j t =>
    cases h
    refine .inr ?_
    simp only [code, Cmd.effect, Function.update_self, left, List.length_append, List.length_singleton]
    omega
  | getResult j t =>
    refine .inr (Nat.add_lt_add_right ?_ _)
    simp only [code, Instr.outcome] at h
    split at h <;> cases h <;> simp [left]
  | lateResolved j t =>
    refine .inr (Nat.add_lt_add_right ?_ _)
    simp only [code, Instr.outcome] at h
    split at h <;> cases h <;> simp [left]
  | recv j remaining =>
    cases hi : st.inbox i with
    | nil => exact .inl ⟨j, remaining, rfl, rfl⟩
    | cons push rest =>
      refine .inr ?_
      have le : o'.left ≤ 2 := by
        simp only [code, Instr.outcome, Cmd.reply, hi, List.head?_cons] at h
        split at h
        · cases h
        · split at h
          · cases h
            exact Nat.le_refl 2
          · split at h <;> cases h <;> simp [left]
      simp only [code, Cmd.effect, Function.update_self, hi, List.tail_cons, List.length_cons]
      have two : (recv j remaining).left = 2 := rfl
      omega
  | unsubscribe j r => cases h

/-- A waiter that returns has read what it has read. -/
lemma WaitPc.left_ret {o : WaitPc} {r : Except WorkQueueError (Option JobStatus)}
    (h : (o.code q e).outcome i st = .ret r) :
    (((o.code q e).cmd.effect i st).inbox i).length < o.left + (st.inbox i).length := by
  have pos : 0 < o.left := by
    cases o with
    | status j t s => cases s <;> simp [left]
    | _ => simp [left]
  have le : (((o.code q e).cmd.effect i st).inbox i).length ≤ (st.inbox i).length := by
    cases o with
    | status j t s => cases s <;> exact Nat.le_refl _
    | subscribe j t => cases h
    | recv j remaining => simp [code, Cmd.effect]
    | _ => exact Nat.le_refl _
  omega

end Waiter

/-! ## Both together -/

/-- The waiter and the resolver agree on how far the resolve has got. -/
structure Together (q : WorkQueue) (j : JobId) (waiter resolver : ℕ)
    (tr : List (Event (Pc Unit) (Input Unit))) (s : Conf (World Unit) (Pc Unit)) (g : Progress) :
    Prop where
  resolving : ResolverAt q j (s.pc resolver) g
  ledger : Ledger q j g s.shared.store
  waiting : WaiterAt q j g (waiter ∈ s.shared.store.subs (q.getResultKey j))
    (s.shared.store.inbox waiter) (TimedOut waiter tr) (s.pc waiter)
  published : ∀ f, Published resolver tr f ↔ g.sent = some f

/-- Only the waiter and the resolver move, each with its own call, and nothing fails or expires. -/
def Duo (j : JobId) (waiter resolver : ℕ) : Cond (World Unit) (Pc Unit) (Input Unit) := fun _ _ i x =>
  (i = waiter ∧ calls (waitsFor j) x) ∨ (i = resolver ∧ calls (resolves j) x)

section Together

variable {q : WorkQueue} {name : String} {j : JobId} {g g' : Progress} {waiter resolver : ℕ}
  {tr : List (Event (Pc Unit) (Input Unit))} {s : Conf (World Unit) (Pc Unit)}

lemma TimedOut.cons {ev : Event (Pc Unit) (Input Unit)} (h : TimedOut waiter tr) :
    TimedOut waiter (ev :: tr) := by
  obtain ⟨ev', mem, h⟩ := h
  exact ⟨ev', List.mem_cons_of_mem _ mem, h⟩

lemma WaiterAt.mono {subscribed : Prop} {inbox : List Push} {timedOut timedOut' : Prop} {p : Pc Unit}
    (le : timedOut → timedOut') (h : WaiterAt q j g subscribed inbox timedOut p) :
    WaiterAt q j g subscribed inbox timedOut' p := by
  cases p with
  | idle => exact h
  | busy u o => cases o <;> exact h
  | finished u r =>
    cases r with
    | waited r => exact h.imp id fun ⟨eq, t⟩ => ⟨eq, le t⟩
    | _ => exact h

/-- A waiter that does nothing while the resolve goes on still knows what it has to, if its inbox is
as it should be. -/
lemma WaiterAt.advance {subscribed : Prop} {inbox inbox' : List Push} {timedOut : Prop} {p : Pc Unit}
    (adv : Advances g g') (empty : ¬ subscribed → inbox = [] → inbox' = [])
    (heard : subscribed → (∀ push ∈ inbox, Heard q j g push) → ∀ push ∈ inbox', Heard q j g' push)
    (kept : subscribed → (∀ f, g.sent = some f → .message (q.getResultKey j) f.text ∈ inbox) →
      ∀ f, g'.sent = some f → .message (q.getResultKey j) f.text ∈ inbox')
    (h : WaiterAt q j g subscribed inbox timedOut p) :
    WaiterAt q j g' subscribed inbox' timedOut p := by
  cases p with
  | idle => exact ⟨h.1, empty h.1 h.2⟩
  | busy u o =>
    cases o with
    | wait o =>
      cases o with
      | status j' t s =>
        obtain ⟨rfl, sub, hi, hs⟩ := h
        refine ⟨rfl, sub, empty sub hi, ?_⟩
        cases s with
        | getResult j' isClaimed isQueued => exact ⟨hs.1, fun hq => adv.described (hs.2 hq)⟩
        | _ => exact hs
      | resolved j' => exact ⟨h.1, adv.described h.2⟩
      | subscribe j' t => exact ⟨h.1, h.2.1, empty h.2.1 h.2.2⟩
      | getResult j' t => exact ⟨h.1, h.2.1, heard h.2.1 h.2.2⟩
      | lateResolved j' t => exact ⟨h.1, h.2.1, heard h.2.1 h.2.2⟩
      | recv j' remaining => exact ⟨h.1, h.2.1, heard h.2.1 h.2.2.1, kept h.2.1 h.2.2.2⟩
      | unsubscribe j' r =>
        obtain ⟨rfl, f, hf, rfl⟩ := h
        exact ⟨rfl, f, adv.final hf, rfl⟩
    | _ => exact h
  | finished u r =>
    cases r with
    | waited r => exact h.imp (fun ⟨f, hf, eq⟩ => ⟨f, adv.final hf, eq⟩) id
    | _ => exact h

/-- A step of the resolver, for a waiter that does nothing meanwhile. -/
lemma WaiterAt.told {st st' : Store JobId Val Claim} {p p' : Pc Unit} {timedOut : Prop} {i : ℕ}
    (adv : Advances g g') (subs : st'.subs = st.subs) (tells : Tells q j p g g' st st')
    (h : WaiterAt q j g (i ∈ st.subs (q.getResultKey j)) (st.inbox i) timedOut p') :
    WaiterAt q j g' (i ∈ st'.subs (q.getResultKey j)) (st'.inbox i) timedOut p' := by
  rw [subs]
  cases tells with
  | nothing inbox sent _ =>
    rw [inbox]
    refine h.advance adv (fun _ empty => empty) ?_ ?_
    · intro _ heard push hp
      unfold Heard
      rw [sent]
      exact heard push hp
    · intro _ kept f hf
      rw [sent] at hf
      exact kept f hf
  | @status a f c _ before after inbox =>
    rw [inbox]
    refine h.advance adv ?_ ?_ ?_
    · intro sub empty
      simp [sub, empty]
    · intro sub heard push hp
      simp only [sub, if_true, List.mem_append, List.mem_singleton] at hp
      rcases hp with hp | rfl
      · refine .inl ?_
        rcases heard push hp with eq | ⟨f', hf', -⟩
        · exact eq
        · rw [before] at hf'
          cases hf'
      · exact .inr ⟨f, after, rfl⟩
    · intro sub _ f' hf'
      rw [after] at hf'
      cases hf'
      simp [sub]

/-- The resolver takes a step. -/
lemma together_resolver (hb : Built q name) (ne : waiter ≠ resolver)
    (inv : Together q j waiter resolver tr s g) {x : Input Unit} {w : World Unit} {p : Pc Unit}
    (hx : calls (resolves j) x)
    (st : step (fun _ => q) resolver s.shared (s.pc resolver) x = some (w, p)) :
    ∃ g', Together q j waiter resolver (⟨resolver, s.pc resolver, x, p⟩ :: tr) (s.move resolver w p)
      g' := by
  obtain ⟨g', rs⟩ := resolver_step hb inv.resolving inv.ledger hx st
  refine ⟨g', ?_, rs.ledger, ?_, ?_⟩
  · rw [Conf.move_pc_self]
    exact rs.at_
  · rw [Conf.move_pc_of_ne ne]
    exact (inv.waiting.told rs.advances rs.subs rs.tells).mono TimedOut.cons
  · intro f
    have old : Published resolver (⟨resolver, s.pc resolver, x, p⟩ :: tr) f ↔
        (∃ a c, s.pc resolver = .busy () (.resolve (.publish a f c))) ∨ g.sent = some f := by
      rw [← inv.published f]
      constructor
      · rintro ⟨ev, mem, a, c, ht, hp⟩
        rcases List.mem_cons.1 mem with rfl | mem
        · exact .inl ⟨a, c, hp⟩
        · exact .inr ⟨ev, mem, a, c, ht, hp⟩
      · rintro (⟨a, c, hp⟩ | ⟨ev, mem, h⟩)
        · exact ⟨_, List.mem_cons_self, a, c, rfl, hp⟩
        · exact ⟨ev, List.mem_cons_of_mem _ mem, h⟩
    rw [old]
    cases rs.tells with
    | nothing _ sent quiet =>
      rw [sent]
      exact ⟨fun h => h.resolve_left fun ⟨a, c, hp⟩ => quiet a f c hp, .inr⟩
    | status hp before after _ =>
      rw [before, after, hp]
      constructor
      · rintro (⟨a, c, eq⟩ | eq)
        · cases eq
          rfl
        · cases eq
      · rintro ⟨rfl⟩
        exact .inl ⟨_, _, rfl⟩

/-- What a step of the waiter does, whoever else is there. -/
lemma waiter_step {i : ℕ} {w w' : World Unit} {p p' : Pc Unit} {x : Input Unit} {timedOut : Prop}
    (led : Ledger q j g w.store)
    (h : WaiterAt q j g (i ∈ w.store.subs (q.getResultKey j)) (w.store.inbox i) timedOut p)
    (hx : calls (waitsFor j) x) (st : step (fun _ => q) i w p x = some (w', p')) :
    w'.store.strs = w.store.strs ∧
    WaiterAt q j g (i ∈ w'.store.subs (q.getResultKey j)) (w'.store.inbox i) (cuts p x = true) p' := by
  rcases hx with ⟨c, e, rfl, t, rfl⟩ | ⟨e, rfl⟩
  · cases p with
    | idle =>
      cases st
      exact ⟨rfl, rfl, h.1, h.2, rfl⟩
    | _ => cases st
  · cases p with
    | busy u o =>
      cases o with
      | wait o =>
        obtain ⟨rfl, rfl⟩ := step_go st
        exact waiter_go led h
      | _ => cases h
    | _ => cases st

/-- The waiter takes a step. -/
lemma together_waiter (ne : waiter ≠ resolver) (inv : Together q j waiter resolver tr s g)
    {x : Input Unit} {w : World Unit} {p : Pc Unit} (hx : calls (waitsFor j) x)
    (st : step (fun _ => q) waiter s.shared (s.pc waiter) x = some (w, p)) :
    Together q j waiter resolver (⟨waiter, s.pc waiter, x, p⟩ :: tr) (s.move waiter w p) g := by
  obtain ⟨strs, wait⟩ := waiter_step inv.ledger inv.waiting hx st
  refine ⟨?_, inv.ledger.congr strs, ?_, ?_⟩
  · rw [Conf.move_pc_of_ne ne.symm]
    exact inv.resolving
  · rw [Conf.move_pc_self]
    exact wait.mono fun cut => ⟨_, List.mem_cons_self, rfl, cut⟩
  · intro f
    rw [← inv.published f]
    constructor
    · rintro ⟨ev, mem, a, c, ht, hp⟩
      rcases List.mem_cons.1 mem with rfl | mem
      · exact absurd ht ne
      · exact ⟨ev, mem, a, c, ht, hp⟩
    · rintro ⟨ev, mem, h⟩
      exact ⟨ev, List.mem_cons_of_mem _ mem, h⟩

/-- Neither call has begun: the job is enqueued, neither cancelled nor resolved, and the connection
the waiter is going to open has not been used. -/
structure Waitable (q : WorkQueue) (j : JobId) (waiter resolver : ℕ) (s : Conf (World Unit) (Pc Unit)) :
    Prop where
  waiting : s.pc waiter = .idle
  resolving : s.pc resolver = .idle
  described : (s.shared.store.strs.lookup (q.getJobKey j)).isSome = true
  unresolved : s.shared.store.strs.lookup (q.getResultKey j) = none
  unsettled : s.shared.store.strs.lookup (q.getResolvedKey j) = none
  unsubscribed : waiter ∉ s.shared.store.subs (q.getResultKey j)
  quiet : s.shared.store.inbox waiter = []

lemma Waitable.together {s : Conf (World Unit) (Pc Unit)} (h : Waitable q j waiter resolver s) :
    Together q j waiter resolver [] s .unresolved where
  resolving := .inl h.resolving
  ledger := ⟨h.described, ⟨none, rfl, h.unresolved⟩, h.unsettled⟩
  waiting := by
    rw [h.waiting]
    exact ⟨h.unsubscribed, h.quiet⟩
  published f := by
    constructor
    · rintro ⟨ev, mem, -⟩
      cases mem
    · intro h
      cases h

/-- Along every run the waiter and the resolver agree. -/
lemma together_run (hb : Built q name) (ne : waiter ≠ resolver) {s₀ : Conf (World Unit) (Pc Unit)}
    (start : Waitable q j waiter resolver s₀)
    (run : Run (step fun _ => q) (Duo j waiter resolver) s₀ tr s) :
    ∃ g, Together q j waiter resolver tr s g := by
  induction run with
  | nil => exact ⟨_, start.together⟩
  | cons run cond st ih =>
    obtain ⟨g, inv⟩ := ih
    rcases cond with ⟨rfl, hx⟩ | ⟨rfl, hx⟩
    · exact ⟨g, together_waiter ne inv hx st⟩
    · exact together_resolver hb ne inv hx st

/-- The waiter's inputs as long as no timeout check ends the wait. -/
def Patient (j : JobId) (waiter : ℕ) (s : Conf (World Unit) (Pc Unit)) (x : Input Unit) : Prop :=
  calls (waitsFor j) x ∧ cuts (s.pc waiter) x = false

/-- How far a thread is from the end of its `wait_for_job`. -/
def Pc.left : Pc Unit → ℕ
  | .idle => 12
  | .busy _ (.wait o) => o.left
  | _ => 0

/-- A waiter that is not done can go on without a timeout. -/
lemma wait_can {f : JobStatus} (sent : g.sent = some f)
    (wait : WaiterAt q j g (waiter ∈ s.shared.store.subs (q.getResultKey j))
      (s.shared.store.inbox waiter) False (s.pc waiter)) :
    s.pc waiter = .finished () (.waited (.ok (some f))) ∨
    ∃ x r, Patient j waiter s x ∧
      step (fun _ => q) waiter s.shared (s.pc waiter) x = some r := by
  unfold Patient
  cases hp : s.pc waiter with
  | idle => exact .inr ⟨.start () (.waitForJob j none) {}, _, ⟨.inl ⟨_, _, rfl, none, rfl⟩, rfl⟩, rfl⟩
  | busy u o =>
    refine .inr ⟨.go {}, _, ⟨.inr ⟨_, rfl⟩, ?_⟩, rfl⟩
    cases o with
    | wait o =>
      cases o with
      | recv j' remaining => simp [cuts]
      | _ => rfl
    | _ => rfl
  | finished u r =>
    rw [hp] at wait
    cases r with
    | waited r =>
      obtain ⟨f', hf, rfl⟩ := wait.resolve_right And.right
      rw [Progress.final_of_sent sent] at hf
      cases hf
      exact .inl rfl
    | _ => cases wait

/-- A waiter that no timeout stops gets closer to its end. -/
lemma wait_closer {f : JobStatus} (sent : g.sent = some f)
    (wait : WaiterAt q j g (waiter ∈ s.shared.store.subs (q.getResultKey j))
      (s.shared.store.inbox waiter) False (s.pc waiter))
    {x : Input Unit} {w : World Unit} {p : Pc Unit} (hx : Patient j waiter s x)
    (st : step (fun _ => q) waiter s.shared (s.pc waiter) x = some (w, p)) :
    p.left + (w.store.inbox waiter).length <
      (s.pc waiter).left + (s.shared.store.inbox waiter).length := by
  obtain ⟨⟨c, e, rfl, t, rfl⟩ | ⟨e, rfl⟩, -⟩ := hx
  · cases hp : s.pc waiter with
    | idle =>
      rw [hp] at st
      cases st
      exact Nat.add_lt_add_right (by simp [Pc.left, WaitPc.left, Next.pc, Call.begin]) _
    | _ =>
      rw [hp] at st
      cases st
  · cases hp : s.pc waiter with
    | busy u o =>
      rw [hp] at st wait
      cases o with
      | wait o =>
        obtain ⟨rfl, rfl⟩ := step_go st
        cases ho : (o.code q e).outcome waiter s.shared.store with
        | goto o' =>
          rcases WaitPc.left_goto ho with ⟨j', r, rfl, empty⟩ | lt
          · -- the message is there
            have mem := wait.2.2.2 f sent
            rw [empty] at mem
            cases mem
          · simpa [Op.code, ho, Out.lift, Next.pc, Pc.left] using lt
        | ret r =>
          have lt := WaitPc.left_ret ho
          simpa [Op.code, ho, Out.lift, Next.pc, Pc.left] using lt
      | _ => cases wait
    | _ =>
      rw [hp] at st
      cases st

/-- Once the status is published, a waiter that no timeout stops returns it. -/
lemma wait_returns {f : JobStatus} (sent : g.sent = some f) (led : Ledger q j g s.shared.store)
    (wait : WaiterAt q j g (waiter ∈ s.shared.store.subs (q.getResultKey j))
      (s.shared.store.inbox waiter) False (s.pc waiter)) :
    Inevitable (step fun _ => q) (Patient j waiter) waiter
      (fun s => s.pc waiter = .finished () (.waited (.ok (some f)))) s := by
  apply Inevitable.of_measure
    (fun s => (s.pc waiter).left + (s.shared.store.inbox waiter).length)
    (I := fun s => Ledger q j g s.shared.store ∧
      WaiterAt q j g (waiter ∈ s.shared.store.subs (q.getResultKey j))
        (s.shared.store.inbox waiter) False (s.pc waiter))
  · rintro s ⟨-, wait⟩
    exact wait_can sent wait
  · rintro s x w p ⟨led, wait⟩ hx st
    have closer := wait_closer sent wait hx st
    obtain ⟨strs, wait'⟩ := waiter_step led wait hx.1 st
    refine ⟨⟨led.congr strs, ?_⟩, ?_⟩
    · rw [Conf.move_pc_self]
      refine wait'.mono ?_
      intro cut
      rw [hx.2] at cut
      cases cut
    · rw [Conf.move_pc_self]
      exact closer
  · exact ⟨led, wait⟩

/-- No lost wake-up. `wait_for_job` never fails, and returns `None` only after one of its timeout
checks; while it listens, the published status is in its inbox; and once `resolve_job` is done, having
published one status, a waiter that was not stopped before and is not stopped by a timeout now returns
that status. -/
theorem no_lost_wakeup {b : WorkQueueBuilder} (hq : b.build = .ok q) (ne : waiter ≠ resolver)
    {s₀ : Conf (World Unit) (Pc Unit)} (start : Waitable q j waiter resolver s₀)
    (run : Run (step fun _ => q) (Duo j waiter resolver) s₀ tr s) :
    (∀ r, s.pc waiter = .finished () r →
      (∃ f, r = .waited (.ok (some f))) ∨ (r = .waited (.ok none) ∧ TimedOut waiter tr)) ∧
    (∀ f, Published resolver tr f → ∀ j' remaining,
      s.pc waiter = .busy () (.wait (.recv j' remaining)) →
      .message (q.getResultKey j) f.text ∈ s.shared.store.inbox waiter) ∧
    (s.pc resolver = .finished () (.resolved (.ok ())) →
      ∃ f, (∀ f', Published resolver tr f' ↔ f' = f) ∧
        ((s.pc waiter = .finished () (.waited (.ok none)) ∧ TimedOut waiter tr) ∨
          Inevitable (step fun _ => q) (Patient j waiter) waiter
            (fun s => s.pc waiter = .finished () (.waited (.ok (some f)))) s)) := by
  obtain ⟨g, inv⟩ := together_run (WorkQueueBuilder.build_built hq) ne start run
  have waiting := inv.waiting
  refine ⟨?_, ?_, ?_⟩
  · intro r hp
    rw [hp] at waiting
    cases r with
    | waited r =>
      rcases waiting with ⟨f, -, rfl⟩ | ⟨rfl, out⟩
      · exact .inl ⟨f, rfl⟩
      · exact .inr ⟨rfl, out⟩
    | _ => cases waiting
  · intro f hf j' remaining hp
    rw [hp] at waiting
    exact waiting.2.2.2 f ((inv.published f).1 hf)
  · intro done
    have sent : ∃ f, g.sent = some f := by
      have ra := inv.resolving
      rw [done] at ra
      cases g with
      | published f => exact ⟨f, rfl⟩
      | gone f => exact ⟨f, rfl⟩
      | unresolved => rcases ra with eq | ⟨err, eq⟩ | ⟨o, eq, -⟩ <;> cases eq
      | stored f =>
        obtain ⟨a, c, eq, -⟩ := ra
        cases eq
      | settled f => obtain ⟨a, c, -, eq | eq⟩ := ra <;> cases eq
      | dropped f =>
        obtain ⟨a, eq, -⟩ := ra
        cases eq
    obtain ⟨f, sent⟩ := sent
    refine ⟨f, ?_, ?_⟩
    · intro f'
      rw [inv.published f', sent, Option.some.injEq]
      exact eq_comm
    · by_cases out : s.pc waiter = .finished () (.waited (.ok none)) ∧ TimedOut waiter tr
      · exact .inl out
      · refine .inr (wait_returns sent inv.ledger ?_)
        -- no timeout has ended the wait
        cases hp : s.pc waiter with
        | finished u r =>
          rw [hp] at waiting out
          cases r with
          | waited r =>
            rcases waiting with h | ⟨rfl, t⟩
            · exact .inl h
            · exact absurd ⟨rfl, t⟩ out
          | _ => cases waiting
        | idle =>
          rw [hp] at waiting
          exact waiting
        | busy u o =>
          rw [hp] at waiting
          cases o <;> exact waiting

end Together

/-- A job that has been enqueued and claimed. -/
def claimedSchedule : List (ℕ × Input Unit) :=
  callOf 0 (.enqueueJobIn none "" .normal 60) 3 ++ callOf 1 (.claimJobIn none "w") 4

/-- The state it leaves behind. -/
def claimedConf : Conf (World Unit) (Pc Unit) := finalOf testMachine Conf.initial claimedSchedule

lemma claimedConf_waitable : Waitable testQueue.queue ⟨0⟩ 2 3 claimedConf where
  waiting := by decide
  resolving := by decide
  described := by decide
  unresolved := by decide
  unsettled := by decide
  unsubscribed := by decide
  quiet := by decide

/-- The waiter takes `n` steps and the resolver then runs to its end. -/
def waitSchedule (n : ℕ) (e : Env) : List (ℕ × Input Unit) :=
  callOf 2 (.waitForJob ⟨0⟩ none) n e ++ callOf 3 (.resolveJob "w" ⟨0⟩ .success none) 7

lemma waitSchedule_run {n : ℕ} {e : Env}
    (ok : (exec testMachine claimedConf [] (waitSchedule n e)).isSome = true) :
    Run testMachine (Duo ⟨0⟩ 2 3) claimedConf (traceOf testMachine claimedConf (waitSchedule n e))
      (finalOf testMachine claimedConf (waitSchedule n e)) := by
  refine exec_run ok ?_
  intro m i x h
  have mem := List.mem_of_getElem? h
  simp only [waitSchedule, callOf, List.mem_append, List.mem_cons, List.mem_replicate] at mem
  rcases mem with (eq | ⟨-, eq⟩) | (eq | ⟨-, eq⟩) <;> cases eq
  · exact .inl ⟨rfl, .inl ⟨_, e, rfl, none, rfl⟩⟩
  · exact .inl ⟨rfl, .inr ⟨e, rfl⟩⟩
  · exact .inr ⟨rfl, .inl ⟨_, _, rfl, _, _, _, rfl⟩⟩
  · exact .inr ⟨rfl, .inr ⟨_, rfl⟩⟩

/-- A wait whose timeout runs out before the job is resolved returns `None`, and that stays its answer
once the job is resolved. -/
theorem wait_timed_out :
    ¬ ∀ s₀ tr s, Waitable testQueue.queue ⟨0⟩ 2 3 s₀ → Run testMachine (Duo ⟨0⟩ 2 3) s₀ tr s →
      s.pc 3 = .finished () (.resolved (.ok ())) →
      ∃ f, Published 3 tr f ∧ Inevitable testMachine (fun _ x => calls (waitsFor ⟨0⟩) x) 2
        (fun s => s.pc 2 = .finished () (.waited (.ok (some f)))) s := by
  intro all
  have run := waitSchedule_run (n := 8) (e := { timedOut := true }) (by decide)
  have done : (finalOf testMachine claimedConf (waitSchedule 8 { timedOut := true })).pc 3 =
      .finished () (.resolved (.ok ())) := by
    decide
  have none : (finalOf testMachine claimedConf (waitSchedule 8 { timedOut := true })).pc 2 =
      .finished () (.waited (.ok none)) := by
    decide
  obtain ⟨f, -, inev⟩ := all _ _ _ claimedConf_waitable run done
  cases inev with
  | now eq =>
    rw [none] at eq
    cases eq
  | later hx st _ =>
    -- it has returned, so it takes no step any more
    rw [none] at st
    rcases hx with ⟨c, e, rfl, -⟩ | ⟨e, rfl⟩ <;> cases st

/-- A waiter that listens when the job is resolved. -/
theorem no_lost_wakeup_listening :
    ∃ tr₀ s₀ tr s, Runs (fun _ : Unit => testQueue.queue) Cond.any tr₀ s₀ ∧
      Run testMachine (Duo ⟨0⟩ 2 3) s₀ tr s ∧
      s.pc 2 = .busy () (.wait (.recv ⟨0⟩ defaultWait)) ∧
      s.pc 3 = .finished () (.resolved (.ok ())) ∧
      ∃ f, (∀ f', Published 3 tr f' ↔ f' = f) ∧
        ((s.pc 2 = .finished () (.waited (.ok none)) ∧ TimedOut 2 tr) ∨
          Inevitable testMachine (Patient ⟨0⟩ 2) 2
            (fun s => s.pc 2 = .finished () (.waited (.ok (some f)))) s) := by
  have run := waitSchedule_run (n := 6) (e := {}) (by decide)
  have listens : (finalOf testMachine claimedConf (waitSchedule 6 {})).pc 2 =
      .busy () (.wait (.recv ⟨0⟩ defaultWait)) := by
    decide
  have done : (finalOf testMachine claimedConf (waitSchedule 6 {})).pc 3 =
      .finished () (.resolved (.ok ())) := by
    decide
  obtain ⟨-, -, wakes⟩ := no_lost_wakeup (b := testQueue) (q := testQueue.queue) rfl (by decide)
    claimedConf_waitable run
  exact ⟨_, _, _, _, exec_run_any (l := claimedSchedule) (by decide), run, listens, done,
    wakes done⟩

end ArchipelagoXL.Wq
