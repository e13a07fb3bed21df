import ArchipelagoXL.Lib.Countdown
import ArchipelagoXL.Wq.Machine
import Mathlib.Logic.Relation

/-!
# Timeouts

The waiting loops of `claim_job_in` and `wait_for_job` (`wq/src/lib.rs`). Both start a clock, wait with a
timer, and at each push take the time on the clock from what was left at the push before; the clock is
never started again, so every push after the first takes off time that was taken off before. `ClaimWoken`
and `WaitWoken` are what the loops do with a push, read off the points `recv` of the two operations; the
pushes of the rest of the loop are those of `Countdown.Awaits`.

A claimer is woken for nothing when its look at the pending set leads it back to `recv`, whatever it
finds there, expired jobs for instance; for a waiter it is a push that is no message on its job's
channel.
-/

namespace ArchipelagoXL.Wq

open Redis (Instr Cmd Store Push)
open Countdown

variable {q : WorkQueue}

/-! ## The loop of `claim_job_in` -/

/-- The claimer issues a command, and goes on after some reply. -/
def ClaimPc.Goes (q : WorkQueue) (c c' : ClaimPc) : Prop :=
  (∀ a r, c ≠ .recv a r) ∧ ∃ e i st, (c.code q e).outcome i st = .goto c'

/-- What a claimer with `r` left does with a push at elapsed time `t`, after which there is a job for it or
not. -/
def ClaimWoken (q : WorkQueue) (a : Claimer) (r t : ℕ) (o : Push × Bool) (w : Wake) : Prop :=
  match ((ClaimPc.recv a r).code q { elapsed := t }).next (some o.1) with
  | .ret (.ok none) => w = .gaveUp
  | .ret _ => False
  | .goto c => if o.2 then w = .acts
    else ∃ r', w = .waits r' ∧ Relation.ReflTransGen (ClaimPc.Goes q) c (.recv a r')

/-- The time that is left at a point. -/
def ClaimPc.remaining : ClaimPc → Option ℕ
  | .zpopmin _ r | .get _ r _ _ | .cancel _ r _ | .recv _ r => some r
  | .subscribe _ | .hset _ _ _ _ => none

/-- Nothing but a wait changes the time that is left. -/
lemma ClaimPc.remaining_goes {c c' : ClaimPc} {r : ℕ} (g : c.Goes q c') (left : c.remaining = some r)
    (on : ∀ a j pr params, c' ≠ .hset a j pr params) : c'.remaining = some r := by
  obtain ⟨waits, e, i, st, ho⟩ := g
  cases c with
  | subscribe a => cases left
  | zpopmin a r₀ =>
    cases left
    simp only [code, Instr.outcome] at ho
    split at ho
    · cases ho
      rfl
    · split at ho <;> cases ho
      rfl
  | get a r₀ j pr =>
    cases left
    simp only [code, Instr.outcome] at ho
    split at ho
    · cases ho
    · split at ho <;> cases ho
      · rfl
      · exact absurd rfl (on _ _ _ _)
  | cancel a r₀ c =>
    cases left
    simp only [code, Instr.map_outcome] at ho
    split at ho <;> cases ho <;> rfl
  | recv a r₀ => exact absurd rfl (waits a r₀)
  | hset a j pr params => cases ho

/-- A claimer that comes back to its wait has the time left that it went with. -/
lemma ClaimPc.remaining_back {c : ClaimPc} {a : Claimer} {r r' : ℕ} (left : c.remaining = some r)
    (path : Relation.ReflTransGen (ClaimPc.Goes q) c (.recv a r')) : r' = r := by
  have kept : ∀ {d}, Relation.ReflTransGen (ClaimPc.Goes q) c d →
      d.remaining = some r ∨ ∃ a j pr params, d = .hset a j pr params := by
    intro d path
    induction path with
    | refl => exact .inl left
    | @tail d d' _ g ih =>
      rcases ih with ih | ⟨a, j, pr, params, rfl⟩
      · by_cases claims : ∃ a j pr params, d' = .hset a j pr params
        · exact .inr claims
        · exact .inl (remaining_goes g ih fun a j pr params eq => claims ⟨a, j, pr, params, eq⟩)
      · obtain ⟨-, e, i, st, ho⟩ := g
        cases ho
  rcases kept path with eq | ⟨_, _, _, _, eq⟩
  · cases eq
    rfl
  · cases eq

/-- A look at an empty set leads back to the wait. -/
lemma ClaimPc.back_of_empty (q : WorkQueue) (a : Claimer) (r : ℕ) :
    Relation.ReflTransGen (ClaimPc.Goes q) (.zpopmin a r) (.recv a r) := by
  refine .single ⟨?_, {}, 0, Store.empty, rfl⟩
  intro _ _ eq
  cases eq

/-- The loop of `claim_job_in` takes the whole time since its start from what was left. -/
lemma claim_cumulative (q : WorkQueue) (a : Claimer) :
    Cumulative (fun o : Push × Bool => o.2) (ClaimWoken q a) := by
  rintro r t ⟨push, usable⟩ w
  simp only [ClaimWoken, ClaimPc.code, cumulative]
  by_cases late : r < t
  · simp only [late, if_true]
  · simp only [late, if_false]
    cases usable with
    | true => rfl
    | false =>
      constructor
      · rintro ⟨r', rfl, path⟩
        rw [ClaimPc.remaining_back rfl path]
        rfl
      · rintro rfl
        exact ⟨_, rfl, ClaimPc.back_of_empty q a _⟩

/-! ## The loop of `wait_for_job` -/

/-- What a waiter with `r` left does with a push at elapsed time `t`. -/
def WaitWoken (q : WorkQueue) (j : JobId) (r t : ℕ) (push : Push) (w : Wake) : Prop :=
  match ((WaitPc.recv j r).code q { elapsed := t }).next (some push) with
  | .ret (.ok none) => w = .gaveUp
  | .goto (.recv _ r') => w = .waits r'
  | .goto (.unsubscribe _ _) => w = .acts
  | _ => False

/-- The push is a message on the job's channel. -/
def WorkQueue.tellsOf (q : WorkQueue) (j : JobId) : Push → Bool
  | .subscribe _ => false
  | .message channel _ => channel = q.getResultKey j

/-- So does the loop of `wait_for_job`. -/
lemma wait_cumulative (q : WorkQueue) (j : JobId) : Cumulative (q.tellsOf j) (WaitWoken q j) := by
  intro r t push w
  simp only [WaitWoken, WaitPc.code, cumulative]
  by_cases late : r < t
  · simp only [late, if_true]
  · simp only [late, if_false]
    cases push with
    | subscribe channel => rfl
    | message channel payload =>
      by_cases other : channel = q.getResultKey j
      · simp [other, WorkQueue.tellsOf]
      · simp [other, WorkQueue.tellsOf]

/-! ## When they keep to their timeouts -/

/-- A claimer with ten nanoseconds is woken for nothing after three and after five, and gives up after
seven; a waiter with as much time is woken so after six, and gives up at the message that comes after
nine. -/
theorem timeouts_fail :
    (¬ ∀ (q : WorkQueue) (a : Claimer) (as : List (ℕ × Push × Bool)) (out : Outcome),
      as.Pairwise (fun a b => a.1 ≤ b.1) → Awaits (ClaimWoken q a) 0 q.claimTimeout as out →
        Honoured (fun o => o.2) q.claimTimeout as out) ∧
    ¬ ∀ (q : WorkQueue) (j : JobId) (timeout : Option ℕ) (as : List (ℕ × Push)) (out : Outcome),
      as.Pairwise (fun a b => a.1 ≤ b.1) → Awaits (WaitWoken q j) 0 (timeout.getD defaultWait) as out →
        Honoured (q.tellsOf j) (timeout.getD defaultWait) as out := by
  constructor
  · intro all
    have run : Awaits (ClaimWoken { testQueue.queue with claimTimeout := 10 } ⟨none, "w"⟩) 0 10
        [(3, .subscribe "", false), (5, .subscribe "", false)] (.gaveUp 7) := by
      refine .useless (by decide) ⟨7, rfl, ClaimPc.back_of_empty _ _ _⟩ ?_
      refine .useless (by decide) ⟨2, rfl, ClaimPc.back_of_empty _ _ _⟩ ?_
      exact .timer (by simp)
    have patient := (all _ _ _ _ (by decide) run).patient 7 rfl
    exact absurd patient (by decide)
  · intro all
    have run : Awaits (WaitWoken testQueue.queue ⟨0⟩) 0 ((some 10).getD defaultWait)
        [(6, .subscribe ""), (9, .message (testQueue.queue.getResultKey ⟨0⟩) "10")] (.gaveUp 9) := by
      refine .useless (by decide) (show WaitWoken _ _ 10 6 _ (.waits 4) from rfl) ?_
      exact .late (by decide) rfl
    have patient := (all _ _ (some 10) _ _ (by decide) run).patient 9 rfl
    exact absurd patient (by decide)

/-- The loops give up no earlier than their timeout, and act on what can be used and comes before it,
exactly for the arrivals that are `InTime`. -/
theorem timeouts_honoured_iff (q : WorkQueue) :
    (∀ (a : Claimer) (as : List (ℕ × Push × Bool)), as.Pairwise (fun a b => a.1 ≤ b.1) →
      (∃ out, Awaits (ClaimWoken q a) 0 q.claimTimeout as out) ∧
      ∀ out, Awaits (ClaimWoken q a) 0 q.claimTimeout as out →
        (Honoured (fun o => o.2) q.claimTimeout as out ↔ InTime (fun o => o.2) q.claimTimeout as)) ∧
    ∀ (j : JobId) (timeout : Option ℕ) (as : List (ℕ × Push)), as.Pairwise (fun a b => a.1 ≤ b.1) →
      (∃ out, Awaits (WaitWoken q j) 0 (timeout.getD defaultWait) as out) ∧
      ∀ out, Awaits (WaitWoken q j) 0 (timeout.getD defaultWait) as out →
        (Honoured (q.tellsOf j) (timeout.getD defaultWait) as out ↔
          InTime (q.tellsOf j) (timeout.getD defaultWait) as) := by
  refine ⟨fun a as sorted => ⟨?_, fun out run => ?_⟩, fun j timeout as sorted => ⟨?_, fun out run => ?_⟩⟩
  · exact exists_awaits (claim_cumulative q a) 0 _ as
  · exact honoured_iff (claim_cumulative q a) run sorted
  · exact exists_awaits (wait_cumulative q j) 0 _ as
  · exact honoured_iff (wait_cumulative q j) run sorted

/-- A claimer that is woken once waits until its time is over. -/
theorem woken_once : ∃ out, Awaits (ClaimWoken { testQueue.queue with claimTimeout := 10 } ⟨none, "w"⟩) 0 10
    [(3, .subscribe "", false)] out ∧ Honoured (fun o => o.2) 10 [(3, Push.subscribe "", false)] out := by
  obtain ⟨⟨out, run⟩, honoured⟩ := (timeouts_honoured_iff { testQueue.queue with claimTimeout := 10 }).1
    ⟨none, "w"⟩ [(3, .subscribe "", false)] (by decide)
  refine ⟨out, run, (honoured out run).2 ⟨fun u first => ?_, fun _ => by decide⟩⟩
  cases first

end ArchipelagoXL.Wq
