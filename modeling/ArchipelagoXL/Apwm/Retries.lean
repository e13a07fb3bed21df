import Mathlib.Algebra.Group.Nat.Defs
import Mathlib.Data.List.Range
import Mathlib.Order.MinMax
import Mathlib.Tactic.Common

/-!
# Downloads that are tried again

A download that failed in a way that may pass is tried again after a wait (`with_retries` in
`apwm/src/index/world.rs`). The wait doubles from one retry to the next, up to a maximum.

A call makes attempts up to the first one that is not transient, as many as its retries allow, and
waits between each two of them as long as `retryDelay` says (`withRetries_exact`).
-/

namespace ArchipelagoXL.Apwm

/-- Rust `Duration`, in nanoseconds: its seconds have 64 bits. -/
@[ext] structure Duration where
  nanos : ℕ
  fits : nanos < 2 ^ 64 * 10 ^ 9

namespace Duration

instance linearOrder : LinearOrder Duration :=
  LinearOrder.lift' nanos fun _ _ same => Duration.ext same

/-- Rust `Duration::from_secs`. -/
def fromSecs (secs : UInt64) : Duration where
  nanos := secs.toNat * 10 ^ 9
  fits := Nat.mul_lt_mul_of_pos_right secs.toNat_lt (by decide)

/-- Rust `Duration::as_secs`. -/
def asSecs (delay : Duration) : ℕ := delay.nanos / 10 ^ 9

/-- Rust `Duration::checked_mul`. -/
def checkedMul (delay : Duration) (factor : UInt32) : Option Duration :=
  if fits : delay.nanos * factor.toNat < 2 ^ 64 * 10 ^ 9 then some ⟨_, fits⟩ else none

end Duration

/-- A counter that is below another one can be counted up. -/
lemma toNat_succ {retry retries : UInt32} (below : retry.toNat < retries.toNat) :
    (retry + 1).toNat = retry.toNat + 1 := by
  have bound := retries.toNat_lt
  rw [UInt32.toNat_add, UInt32.toNat_one]
  omega

/-- Rust `u32::saturating_sub`. -/
def saturatingSub (a b : UInt32) : UInt32 := UInt32.ofNat (a.toNat - b.toNat)

/-- Rust `u32::saturating_pow`. -/
def saturatingPow (base exponent : UInt32) : UInt32 :=
  UInt32.ofNat (min (base.toNat ^ exponent.toNat) (2 ^ 32 - 1))

def firstRetryDelay : Duration := .fromSecs 2

def maxRetryDelay : Duration := .fromSecs 16

/-- Rust `retry_delay`. -/
def retryDelay (retry : UInt32) : Duration :=
  let doublings := saturatingSub retry 1
  match firstRetryDelay.checkedMul (saturatingPow 2 doublings) with
  | none => maxRetryDelay
  | some delay => min delay maxRetryDelay

/-- Rust `anyhow::Error`. -/
inductive Error where
  | msg (text : String)
  | context (text : String) (source : Error)
deriving DecidableEq

/-- What `{:#}` writes of an error. -/
def Error.alternate : Error → String
  | .msg text => text
  | .context text source => text ++ ": " ++ source.alternate

/-- Rust `DownloadError`. -/
inductive DownloadError where
  | transient (e : Error)
  | permanent (e : Error)
deriving DecidableEq

/-- A wait of `with_retries`, with what is logged before it. -/
structure Pause where
  warning : String
  delay : Duration

/-- The wait before a retry. -/
def pause (what : String) (retries retry : UInt32) (e : Error) : Pause where
  warning := s!"{what} failed, retry {retry} of {retries} in {(retryDelay retry).asSecs}s: {e.alternate}"
  delay := retryDelay retry

/-- What a call of `with_retries` has done when it returns. -/
structure Retried (T : Type) where
  attempts : ℕ
  pauses : List Pause
  result : Except Error T

section
variable {T : Type} (what : String) (retries : UInt32) (attempt : ℕ → Except DownloadError T)

/-- The loop of `with_retries`, after some attempts; `attempt` has what comes of each of them. -/
def withRetriesFrom (made : ℕ) (retry : UInt32) : Retried T :=
  match attempt made with
  | .ok value => ⟨made + 1, [], .ok value⟩
  | .error (.permanent e) => ⟨made + 1, [], .error e⟩
  | .error (.transient e) =>
    if spent : retries ≤ retry then ⟨made + 1, [], .error (.context s!"Gave up after {retries} retries" e)⟩
    else
      have : retries.toNat - (retry + 1).toNat < retries.toNat - retry.toNat := by
        have below := UInt32.lt_iff_toNat_lt.mp (UInt32.not_le.mp spent)
        rw [toNat_succ below]
        omega
      let rest := withRetriesFrom (made + 1) (retry + 1)
      { rest with pauses := pause what retries (retry + 1) e :: rest.pauses }
termination_by retries.toNat - retry.toNat

/-- Rust `with_retries`. -/
def withRetries : Retried T := withRetriesFrom what retries attempt 0 0

end

/-! ## Waits -/

lemma toNat_saturatingSub (a b : UInt32) : (saturatingSub a b).toNat = a.toNat - b.toNat := by
  have bound := a.toNat_lt
  rw [saturatingSub, UInt32.toNat_ofNat_of_lt']
  exact lt_of_le_of_lt (Nat.sub_le _ _) bound

lemma toNat_saturatingPow (base exponent : UInt32) :
    (saturatingPow base exponent).toNat = min (base.toNat ^ exponent.toNat) (2 ^ 32 - 1) := by
  rw [saturatingPow, UInt32.toNat_ofNat_of_lt']
  exact lt_of_le_of_lt (Nat.min_le_right _ _) (by decide)

/-- The first delay times any number of 32 bits is a duration. -/
lemma firstRetryDelay_mul_fits (factor : UInt32) : firstRetryDelay.nanos * factor.toNat < 2 ^ 64 * 10 ^ 9 := by
  have bound := factor.toNat_lt
  have first : firstRetryDelay.nanos = 2 * 10 ^ 9 := rfl
  rw [first]
  omega

lemma Duration.nanos_min (a b : Duration) : (min a b).nanos = min a.nanos b.nanos := by
  rcases le_total a b with le | le
  · rw [min_eq_left le]
    exact (min_eq_left (show a.nanos ≤ b.nanos from le)).symm
  · rw [min_eq_right le]
    exact (min_eq_right (show b.nanos ≤ a.nanos from le)).symm

/-- What `retry_delay` says, in nanoseconds. -/
lemma nanos_retryDelay (retry : UInt32) :
    (retryDelay retry).nanos = min (2 * 10 ^ 9 * min (2 ^ (retry.toNat - 1)) (2 ^ 32 - 1)) (16 * 10 ^ 9) := by
  have factor : (saturatingPow 2 (saturatingSub retry 1)).toNat = min (2 ^ (retry.toNat - 1)) (2 ^ 32 - 1) := by
    rw [toNat_saturatingPow, toNat_saturatingSub]
    rfl
  rw [retryDelay, Duration.checkedMul, dif_pos (firstRetryDelay_mul_fits _)]
  dsimp only
  rw [Duration.nanos_min, ← factor]
  rfl

lemma retryDelay_mono {a b : UInt32} (le : a ≤ b) : retryDelay a ≤ retryDelay b := by
  have doublings : 2 ^ (a.toNat - 1) ≤ 2 ^ (b.toNat - 1) :=
    Nat.pow_le_pow_right (by decide) (Nat.sub_le_sub_right (UInt32.le_iff_toNat_le.mp le) 1)
  change (retryDelay a).nanos ≤ (retryDelay b).nanos
  rw [nanos_retryDelay, nanos_retryDelay]
  exact min_le_min_right _ (Nat.mul_le_mul_left _ (min_le_min_right _ doublings))

lemma retryDelay_le (retry : UInt32) : retryDelay retry ≤ maxRetryDelay := by
  change (retryDelay retry).nanos ≤ maxRetryDelay.nanos
  rw [nanos_retryDelay]
  exact min_le_right _ _

example : (List.range 6).map (fun i => (retryDelay (UInt32.ofNat (i + 1))).asSecs) = [2, 4, 8, 16, 16, 16] := by
  decide

/-! ## Attempts -/

/-- An attempt that may be made again. -/
def IsTransient {T : Type} (outcome : Except DownloadError T) : Prop := ∃ e, outcome = .error (.transient e)

/-- What a call returns that stops after an attempt. -/
def answer {T : Type} (retries : UInt32) : Except DownloadError T → Except Error T
  | .ok value => .ok value
  | .error (.permanent e) => .error e
  | .error (.transient e) => .error (.context s!"Gave up after {retries} retries" e)

/-- The loop, after `made` attempts and `retry` retries, has returned as it should. -/
structure IsExact {T : Type} (retries : UInt32) (attempt : ℕ → Except DownloadError T) (made retry : ℕ)
    (run : Retried T) : Prop where
  more : made < run.attempts
  bound : run.attempts ≤ made + (retries.toNat - retry) + 1
  before (i : ℕ) (since : made ≤ i) (later : i + 1 < run.attempts) : IsTransient (attempt i)
  last : IsTransient (attempt (run.attempts - 1)) → run.attempts = made + (retries.toNat - retry) + 1
  result : run.result = answer retries (attempt (run.attempts - 1))
  waits : run.pauses.map Pause.delay =
    (List.range (run.attempts - made - 1)).map fun i => retryDelay (UInt32.ofNat (retry + i + 1))

/-- A loop that stops after one more attempt. -/
lemma IsExact.stop {T : Type} {retries : UInt32} {attempt : ℕ → Except DownloadError T} {made retry : ℕ}
    (spent : IsTransient (attempt made) → retries.toNat ≤ retry) :
    IsExact retries attempt made retry ⟨made + 1, [], answer retries (attempt made)⟩ where
  more := Nat.lt_succ_self made
  bound := Nat.succ_le_succ (Nat.le_add_right _ _)
  before i since later := absurd (Nat.lt_of_succ_lt_succ later) (Nat.not_lt.mpr since)
  last transient := by
    rw [Nat.sub_eq_zero_of_le (spent transient)]
  result := rfl
  waits := by
    simp

/-- A loop that waits after an attempt and goes on. -/
lemma IsExact.again {T : Type} {retries : UInt32} {attempt : ℕ → Except DownloadError T} {made retry : ℕ}
    {run : Retried T} (transient : IsTransient (attempt made)) (below : retry < retries.toNat)
    (rest : IsExact retries attempt (made + 1) (retry + 1) run) (wait : Pause)
    (delay : wait.delay = retryDelay (UInt32.ofNat (retry + 1))) :
    IsExact retries attempt made retry { run with pauses := wait :: run.pauses } where
  more := Nat.lt_of_succ_lt rest.more
  bound := by
    have bound := rest.bound
    change run.attempts ≤ _
    omega
  before i since later := by
    rcases Nat.eq_or_lt_of_le since with rfl | since
    · exact transient
    · exact rest.before i since later
  last transient := by
    have last := rest.last transient
    change run.attempts = _
    omega
  result := rest.result
  waits := by
    have more := rest.more
    -- one wait more than the rest of the loop has
    have count : run.attempts - made - 1 = run.attempts - (made + 1) - 1 + 1 := by omega
    change wait.delay :: run.pauses.map Pause.delay = List.map _ (List.range (run.attempts - made - 1))
    rw [count, List.range_succ_eq_map, List.map_cons, List.map_map, rest.waits, delay]
    refine congrArg _ (List.map_congr_left fun i _ => ?_)
    rw [Function.comp_apply]
    congr 2
    omega

lemma withRetriesFrom_exact {T : Type} (what : String) (retries : UInt32) (attempt : ℕ → Except DownloadError T)
    (made : ℕ) (retry : UInt32) :
    IsExact retries attempt made retry.toNat (withRetriesFrom what retries attempt made retry) := by
  induction made, retry using withRetriesFrom.induct what retries attempt with
  | case1 made retry value outcome =>
    have stop : IsExact retries attempt made retry.toNat ⟨made + 1, [], answer retries (attempt made)⟩ := by
      apply IsExact.stop
      rintro ⟨e, transient⟩
      cases outcome.symm.trans transient
    rw [withRetriesFrom, outcome]
    rwa [outcome] at stop
  | case2 made retry e outcome =>
    have stop : IsExact retries attempt made retry.toNat ⟨made + 1, [], answer retries (attempt made)⟩ := by
      apply IsExact.stop
      rintro ⟨e, transient⟩
      cases outcome.symm.trans transient
    rw [withRetriesFrom, outcome]
    rwa [outcome] at stop
  | case3 made retry e outcome spent =>
    have stop : IsExact retries attempt made retry.toNat ⟨made + 1, [], answer retries (attempt made)⟩ :=
      IsExact.stop fun _ => UInt32.le_iff_toNat_le.mp spent
    rw [withRetriesFrom, outcome]
    rw [outcome] at stop
    simp only [dif_pos spent]
    exact stop
  | case4 made retry e outcome spent smaller ih =>
    have below : retry.toNat < retries.toNat := UInt32.lt_iff_toNat_lt.mp (UInt32.not_le.mp spent)
    have next : retry + 1 = UInt32.ofNat (retry.toNat + 1) := by
      rw [← toNat_succ below, UInt32.ofNat_toNat]
    rw [toNat_succ below] at ih
    have again := IsExact.again ⟨e, outcome⟩ below ih (pause what retries (retry + 1) e) (congrArg retryDelay next)
    rw [withRetriesFrom, outcome]
    simpa only [dif_neg spent] using again

/-- What the waits before retries are like. -/
structure DelaysFit : Prop where
  fits (retry : UInt32) : (firstRetryDelay.checkedMul (saturatingPow 2 (saturatingSub retry 1))).isSome
  grows {a b : UInt32} (le : a ≤ b) : retryDelay a ≤ retryDelay b
  bounded (retry : UInt32) : retryDelay retry ≤ maxRetryDelay

/-- The number of the first attempt that is not transient, counted from 1. -/
def FirstSettled {T : Type} (attempt : ℕ → Except DownloadError T) (k : ℕ) : Prop :=
  0 < k ∧ ¬ IsTransient (attempt (k - 1)) ∧ ∀ i, i + 1 < k → IsTransient (attempt i)

/-- A call makes as many attempts as it should, answers what the last of them came to, and waits between them. -/
structure RetriesExactly {T : Type} (retries : UInt32) (attempt : ℕ → Except DownloadError T) (run : Retried T) :
    Prop where
  settled {k : ℕ} (first : FirstSettled attempt k) : run.attempts = min k (retries.toNat + 1)
  unsettled (always : ∀ i, IsTransient (attempt i)) : run.attempts = retries.toNat + 1
  result : run.result = answer retries (attempt (run.attempts - 1))
  waits : run.pauses.map Pause.delay = (List.range (run.attempts - 1)).map fun i => retryDelay (UInt32.ofNat (i + 1))

lemma delaysFit : DelaysFit where
  fits retry := by
    rw [Duration.checkedMul, dif_pos (firstRetryDelay_mul_fits _)]
    rfl
  grows := retryDelay_mono
  bounded := retryDelay_le

/-- Retrying is exact. -/
theorem withRetries_exact {T : Type} (what : String) (retries : UInt32) (attempt : ℕ → Except DownloadError T) :
    RetriesExactly retries attempt (withRetries what retries attempt) ∧ DelaysFit := by
  have exact : IsExact retries attempt 0 0 (withRetries what retries attempt) :=
    withRetriesFrom_exact what retries attempt 0 0
  refine ⟨⟨?_, ?_, exact.result, ?_⟩, delaysFit⟩
  · rintro k ⟨positive, settled, transient⟩
    have more := exact.more
    have bound := exact.bound
    rcases lt_trichotomy (withRetries what retries attempt).attempts k with less | same | greater
    · -- it stopped at an attempt that is transient, so the retries are spent
      have last := exact.last (transient _ (by omega))
      omega
    · omega
    · exact absurd (exact.before (k - 1) (Nat.zero_le _) (by omega)) settled
  · intro always
    have last := exact.last (always _)
    omega
  · have waits := exact.waits
    rw [Nat.sub_zero] at waits
    simpa only [Nat.zero_add] using waits

end ArchipelagoXL.Apwm
