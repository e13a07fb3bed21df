import Mathlib.Algebra.GroupWithZero.Nat
import Mathlib.Data.List.TakeWhile
import Mathlib.Tactic.Common

/-!
# Waits that are told what is left of their time

A loop waits for something to arrive, with a timer for the time that is left. At each arrival it works
out what is left now, and gives up, acts on what has arrived, or waits on. `Awaits` is the loop over the
arrivals, each with the time since the start; what the loop does with one is a parameter. An arrival at
the instant at which the timer runs out comes first.

A loop is `Cumulative` when it takes the whole time since the start from what was left at the arrival
before. Such a loop counts the same time several times over: `honoured_iff` says exactly for which
arrivals it still keeps to its timeout.
-/

namespace Countdown

variable {ω : Type}

/-- What a loop does with an arrival. -/
inductive Wake where
  | gaveUp
  | acts
  | waits (remaining : ℕ)
deriving DecidableEq

/-- How a loop ends, and when. -/
inductive Outcome where
  | gaveUp (time : ℕ)
  | acted (time : ℕ)
deriving DecidableEq

/-- The loop, waiting since `last` with `remaining` on its timer: `Woken r t o` is what it does with an
arrival `o` at time `t` when `r` was left. -/
inductive Awaits (Woken : ℕ → ℕ → ω → Wake → Prop) : (last remaining : ℕ) → List (ℕ × ω) → Outcome →
    Prop where
  | timer {last r as} : (∀ a ∈ as.head?, last + r < a.1) → Awaits Woken last r as (.gaveUp (last + r))
  | late {last r t o as} : t ≤ last + r → Woken r t o .gaveUp →
    Awaits Woken last r ((t, o) :: as) (.gaveUp t)
  | useful {last r t o as} : t ≤ last + r → Woken r t o .acts →
    Awaits Woken last r ((t, o) :: as) (.acted t)
  | useless {last r r' t o as out} : t ≤ last + r → Woken r t o (.waits r') →
    Awaits Woken t r' as out → Awaits Woken last r ((t, o) :: as) out

/-- The loop keeps to its timeout `T`: it gives up no earlier, and acts on what can be used and arrives
before. -/
structure Honoured (usable : ω → Bool) (T : ℕ) (as : List (ℕ × ω)) (out : Outcome) : Prop where
  patient : ∀ x, out = .gaveUp x → T ≤ x
  attentive : ∀ a ∈ as, usable a.2 = true → a.1 < T → ∃ u ≤ a.1, out = .acted u

/-- What a loop does at an arrival that takes the whole time since the start from what was left. -/
def cumulative (r t : ℕ) (usable : Bool) : Wake :=
  if r < t then .gaveUp else if usable then .acts else .waits (r - t)

def Cumulative (usable : ω → Bool) (Woken : ℕ → ℕ → ω → Wake → Prop) : Prop :=
  ∀ r t o w, Woken r t o w ↔ w = cumulative r t (usable o)

/-- The arrivals that can be used come soon enough for a cumulative loop. -/
structure InTime (usable : ω → Bool) (T : ℕ) (as : List (ℕ × ω)) : Prop where
  /-- The first of them, if it comes before the timeout, and all arrivals before it. -/
  first : ∀ u ∈ as.find? fun a => usable a.2, u.1 < T →
    ((as.takeWhile fun a => !usable a.2).map (·.1)).sum + u.1 ≤ T
  /-- If none of them comes before the timeout, the loop is woken once at most between. -/
  none : (∀ a ∈ as, usable a.2 = true → T ≤ a.1) →
    (as.filter fun a => 0 < a.1 ∧ a.1 < T).length ≤ 1

section Cumulative

variable {usable : ω → Bool} {Woken : ℕ → ℕ → ω → Wake → Prop} {T last r x : ℕ} {as : List (ℕ × ω)}
  {a : ℕ × ω} {out : Outcome}

/-- A wait without arrivals lasts until the timer runs out. -/
lemma awaits_nil (run : Awaits Woken last r [] out) : out = .gaveUp (last + r) := by
  cases run
  rfl

/-- What a cumulative loop does with the next arrival. -/
lemma awaits_cons (cum : Cumulative usable Woken) (run : Awaits Woken last r (a :: as) out) :
    (last + r < a.1 ∧ out = .gaveUp (last + r)) ∨ (a.1 ≤ last + r ∧ r < a.1 ∧ out = .gaveUp a.1) ∨
    (a.1 ≤ r ∧ usable a.2 = true ∧ out = .acted a.1) ∨
    (a.1 ≤ r ∧ usable a.2 = false ∧ Awaits Woken a.1 (r - a.1) as out) := by
  cases run with
  | timer idle => exact .inl ⟨idle a rfl, rfl⟩
  | late soon woken =>
    have w := (cum _ _ _ _).1 woken
    unfold cumulative at w
    split at w
    · exact .inr (.inl ⟨soon, ‹_›, rfl⟩)
    · split at w <;> cases w
  | useful soon woken =>
    have w := (cum _ _ _ _).1 woken
    unfold cumulative at w
    split at w
    · cases w
    · rename_i left
      split at w
      · exact .inr (.inr (.inl ⟨Nat.le_of_not_lt left, ‹_›, rfl⟩))
      · cases w
  | useless soon woken run =>
    have w := (cum _ _ _ _).1 woken
    unfold cumulative at w
    split at w
    · cases w
    · rename_i left
      split at w
      · cases w
      · rename_i use
        cases w
        exact .inr (.inr (.inr ⟨Nat.le_of_not_lt left, by simpa using use, run⟩))

/-- A cumulative loop ends in some way, whatever arrives. -/
lemma exists_awaits (cum : Cumulative usable Woken) (last r : ℕ) (as : List (ℕ × ω)) :
    ∃ out, Awaits Woken last r as out := by
  induction as generalizing last r with
  | nil => exact ⟨_, .timer (by simp)⟩
  | cons a as ih =>
    by_cases late : last + r < a.1
    · exact ⟨_, .timer (by simpa using late)⟩
    · have soon := Nat.le_of_not_lt late
      cases w : cumulative r a.1 (usable a.2) with
      | gaveUp => exact ⟨_, .late soon ((cum _ _ _ _).2 w.symm)⟩
      | acts => exact ⟨_, .useful soon ((cum _ _ _ _).2 w.symm)⟩
      | waits r' =>
        obtain ⟨out, run⟩ := ih a.1 r'
        exact ⟨out, .useless soon ((cum _ _ _ _).2 w.symm) run⟩

/-! ## Something usable arrives before the timeout -/

/-- The first usable arrival is acted on while there is enough time left for all arrivals so far. -/
lemma acted_of_first (cum : Cumulative usable Woken) (run : Awaits Woken last r as out)
    {u : ℕ × ω} (first : as.find? (fun a => usable a.2) = some u)
    (sum : ((as.takeWhile fun a => !usable a.2).map (·.1)).sum + u.1 ≤ r) : out = .acted u.1 := by
  induction as generalizing last r with
  | nil => cases first
  | cons a as ih =>
    cases use : usable a.2 with
    | true =>
      simp only [List.find?_cons, use, Option.some.injEq] at first
      subst first
      simp only [List.takeWhile_cons, use] at sum
      rcases awaits_cons cum run with ⟨late, -⟩ | ⟨-, late, -⟩ | ⟨-, -, rfl⟩ | ⟨-, useless, -⟩
      · simp at sum
        omega
      · simp at sum
        omega
      · rfl
      · rw [use] at useless
        cases useless
    | false =>
      simp only [List.find?_cons, use] at first
      simp only [List.takeWhile_cons, use, Bool.not_false, if_true, List.map_cons, List.sum_cons] at sum
      rcases awaits_cons cum run with ⟨late, -⟩ | ⟨-, late, -⟩ | ⟨-, useful, -⟩ | ⟨-, -, rest⟩
      · omega
      · omega
      · rw [use] at useful
        cases useful
      · exact ih rest first (by omega)

/-- Otherwise the loop has given up by then. -/
lemma gaveUp_of_first (cum : Cumulative usable Woken) (run : Awaits Woken last r as out)
    (sorted : as.Pairwise fun a b => a.1 ≤ b.1) {u : ℕ × ω}
    (first : as.find? (fun a => usable a.2) = some u)
    (sum : r < ((as.takeWhile fun a => !usable a.2).map (·.1)).sum + u.1) :
    ∃ x ≤ u.1, out = .gaveUp x := by
  induction as generalizing last r with
  | nil => cases first
  | cons a as ih =>
    obtain ⟨before, sorted⟩ := List.pairwise_cons.1 sorted
    cases use : usable a.2 with
    | true =>
      simp only [List.find?_cons, use, Option.some.injEq] at first
      subst first
      simp only [List.takeWhile_cons, use, Bool.not_true] at sum
      simp at sum
      rcases awaits_cons cum run with ⟨late, rfl⟩ | ⟨-, -, rfl⟩ | ⟨soon, -⟩ | ⟨-, useless, -⟩
      · exact ⟨_, by omega, rfl⟩
      · exact ⟨_, le_refl _, rfl⟩
      · omega
      · rw [use] at useless
        cases useless
    | false =>
      simp only [List.find?_cons, use] at first
      simp only [List.takeWhile_cons, use, Bool.not_false, if_true, List.map_cons, List.sum_cons] at sum
      have le := before u (List.mem_of_find?_eq_some first)
      rcases awaits_cons cum run with ⟨late, rfl⟩ | ⟨-, -, rfl⟩ | ⟨-, useful, -⟩ | ⟨soon, -, rest⟩
      · exact ⟨_, by omega, rfl⟩
      · exact ⟨_, le, rfl⟩
      · rw [use] at useful
        cases useful
      · exact ih rest sorted first (by omega)

/-! ## Nothing usable arrives before the timeout -/

/-- A timer that runs out too early is not made up for. -/
lemma gaveUp_of_early (cum : Cumulative usable Woken) (run : Awaits Woken last r as out)
    (useless : ∀ a ∈ as, usable a.2 = true → T ≤ a.1) (early : last + r < T) :
    ∃ x < T, out = .gaveUp x := by
  induction as generalizing last r with
  | nil => exact ⟨_, early, awaits_nil run⟩
  | cons a as ih =>
    rcases awaits_cons cum run with ⟨-, rfl⟩ | ⟨soon, -, rfl⟩ | ⟨soon, use, -⟩ | ⟨soon, -, rest⟩
    · exact ⟨_, early, rfl⟩
    · exact ⟨_, by omega, rfl⟩
    · have := useless a List.mem_cons_self use
      omega
    · exact ih rest (fun b hb => useless b (List.mem_cons_of_mem _ hb)) (by omega)

/-- After the timeout there is nothing left to give up early. -/
lemma patient_of_late (cum : Cumulative usable Woken) (run : Awaits Woken last r as (.gaveUp x))
    (late : ∀ a ∈ as, T ≤ a.1) (timer : T ≤ last + r) : T ≤ x := by
  induction as generalizing last r with
  | nil =>
    cases awaits_nil run
    exact timer
  | cons a as ih =>
    have here := late a List.mem_cons_self
    rcases awaits_cons cum run with ⟨-, eq⟩ | ⟨-, -, eq⟩ | ⟨-, -, eq⟩ | ⟨-, -, rest⟩
    · cases eq
      exact timer
    · cases eq
      exact here
    · cases eq
    · exact ih rest (fun b hb => late b (List.mem_cons_of_mem _ hb)) (by omega)

/-- Woken between its start and the timeout, the loop keeps to the timeout if this is not repeated. -/
lemma patient_iff_of_woken (cum : Cumulative usable Woken) {t : ℕ}
    (run : Awaits Woken t (T - t) as out) (pos : 0 < t) (before : t < T)
    (sorted : as.Pairwise fun a b => a.1 ≤ b.1) (after : ∀ a ∈ as, t ≤ a.1)
    (useless : ∀ a ∈ as, usable a.2 = true → T ≤ a.1) :
    (∀ x, out = .gaveUp x → T ≤ x) ↔ ∀ a ∈ as, T ≤ a.1 := by
  constructor
  · intro patient
    cases as with
    | nil => exact fun a ha => absurd ha List.not_mem_nil
    | cons a as =>
      obtain ⟨later, -⟩ := List.pairwise_cons.1 sorted
      have here : T ≤ a.1 := by
        by_contra again
        rcases awaits_cons cum run with ⟨late, -⟩ | ⟨-, -, rfl⟩ | ⟨-, use, -⟩ | ⟨soon, -, rest⟩
        · omega
        · exact again (patient _ rfl)
        · exact again (useless a List.mem_cons_self use)
        · obtain ⟨x, early, rfl⟩ := gaveUp_of_early cum rest
            (fun b hb => useless b (List.mem_cons_of_mem _ hb)) (by omega)
          exact absurd (patient x rfl) (Nat.not_le_of_lt early)
      intro b hb
      rcases List.mem_cons.1 hb with rfl | hb
      · exact here
      · exact here.trans (later b hb)
  · rintro late x rfl
    exact patient_of_late cum run late (by omega)

/-- Woken once between its start and the timeout, the loop waits on until the timeout; woken twice, it
gives up before. -/
lemma patient_iff (cum : Cumulative usable Woken) (run : Awaits Woken 0 T as out)
    (sorted : as.Pairwise fun a b => a.1 ≤ b.1) (useless : ∀ a ∈ as, usable a.2 = true → T ≤ a.1) :
    (∀ x, out = .gaveUp x → T ≤ x) ↔ (as.filter fun a => 0 < a.1 ∧ a.1 < T).length ≤ 1 := by
  induction as with
  | nil =>
    cases awaits_nil run
    simp
  | cons a as ih =>
    obtain ⟨later, sorted'⟩ := List.pairwise_cons.1 sorted
    have useless' : ∀ b ∈ as, usable b.2 = true → T ≤ b.1 :=
      fun b hb => useless b (List.mem_cons_of_mem _ hb)
    rcases Nat.lt_or_ge a.1 T with before | after
    · rcases awaits_cons cum run with ⟨late, -⟩ | ⟨-, late, -⟩ | ⟨-, use, -⟩ | ⟨-, -, rest⟩
      · omega
      · omega
      · exact absurd (useless a List.mem_cons_self use) (Nat.not_le_of_lt before)
      · rcases Nat.eq_zero_or_pos a.1 with zero | pos
        · rw [zero, Nat.sub_zero] at rest
          rw [List.filter_cons_of_neg (by simp [zero])]
          exact ih rest sorted' useless'
        · rw [patient_iff_of_woken cum rest pos before sorted' later useless',
            List.filter_cons_of_pos (by simp [pos, before]), List.length_cons, Nat.succ_le_succ_iff,
            Nat.le_zero, List.length_eq_zero_iff, List.filter_eq_nil_iff]
          refine forall₂_congr fun b hb => ?_
          have := later b hb
          simp only [decide_eq_true_eq]
          omega
    · have late : ∀ b ∈ a :: as, T ≤ b.1 := by
        intro b hb
        rcases List.mem_cons.1 hb with rfl | hb
        · exact after
        · exact after.trans (later b hb)
      have none : (a :: as).filter (fun b => 0 < b.1 ∧ b.1 < T) = [] :=
        List.filter_eq_nil_iff.2 fun b hb => by
          have := late b hb
          simp only [decide_eq_true_eq]
          omega
      rw [none]
      refine iff_of_true ?_ (Nat.zero_le 1)
      rintro x rfl
      exact patient_of_late cum run late (by omega)

/-- The first usable arrival is the soonest. -/
lemma first_soonest (sorted : as.Pairwise fun a b => a.1 ≤ b.1) {u : ℕ × ω}
    (first : as.find? (fun a => usable a.2) = some u) (ha : a ∈ as) (use : usable a.2 = true) :
    u.1 ≤ a.1 := by
  obtain ⟨-, before, after, rfl, none⟩ := List.find?_eq_some_iff_append.1 first
  rcases List.mem_append.1 ha with ha | ha
  · have := none a ha
    simp [use] at this
  · rcases List.mem_cons.1 ha with rfl | ha
    · exact le_refl _
    · exact (List.pairwise_cons.1 (List.pairwise_append.1 sorted).2.1).1 a ha

/-- Exactly when a cumulative loop keeps to its timeout. -/
theorem honoured_iff (cum : Cumulative usable Woken) (run : Awaits Woken 0 T as out)
    (sorted : as.Pairwise fun a b => a.1 ≤ b.1) : Honoured usable T as out ↔ InTime usable T as := by
  by_cases useless : ∀ a ∈ as, usable a.2 = true → T ≤ a.1
  · constructor
    · intro h
      refine ⟨fun u first before => ?_, fun _ => (patient_iff cum run sorted useless).1 h.patient⟩
      have use : usable u.2 = true := List.find?_some (p := fun a : ℕ × ω => usable a.2) first
      exact absurd (useless u (List.mem_of_find?_eq_some first) use) (Nat.not_le_of_lt before)
    · intro h
      refine ⟨(patient_iff cum run sorted useless).2 (h.none useless), fun a ha use before => ?_⟩
      exact absurd (useless a ha use) (Nat.not_le_of_lt before)
  · obtain ⟨a, ha, use, before⟩ : ∃ a ∈ as, usable a.2 = true ∧ a.1 < T := by
      by_contra none
      exact useless fun a ha use => Nat.le_of_not_lt fun lt => none ⟨a, ha, use, lt⟩
    obtain ⟨u, first⟩ := Option.isSome_iff_exists.1
      (List.find?_isSome.2 ⟨a, ha, use⟩ : (as.find? fun a => usable a.2).isSome = true)
    have soonest : u.1 < T := (first_soonest sorted first ha use).trans_lt before
    constructor
    · intro h
      refine ⟨fun u' first' _ => ?_, fun late => absurd late useless⟩
      rw [first, Option.mem_some_iff] at first'
      subst first'
      by_contra much
      obtain ⟨x, le, rfl⟩ := gaveUp_of_first cum run sorted first (Nat.lt_of_not_le much)
      exact absurd (h.patient x rfl) (Nat.not_le_of_lt (le.trans_lt soonest))
    · intro h
      obtain rfl := acted_of_first cum run first (h.first u first soonest)
      refine ⟨fun x eq => ?_, fun b hb use' _ => ⟨u.1, first_soonest sorted first hb use', rfl⟩⟩
      cases eq

end Cumulative

end Countdown
