import Mathlib.Data.List.Basic
import Mathlib.Order.Lattice
import Mathlib.Tactic.Common

/-!
# Timelines

A list of values, each for a period that ends before its stop. The first one that holds at a point is the value
there. A new value is recorded by ending the first period that holds at its point and adding a period that never
ends: what was before the point stays (`valueAt_record_of_lt`), the new value is the one at the point
(`valueAt_record_self`), and the periods stay apart exactly if nothing else holds later (`apart_record_iff`).
-/

namespace ArchipelagoXL.Timeline

/-- A value, from a start and before a stop. -/
structure Period (P A : Type) where
  start : Option P
  stop : Option P
  value : A

section
variable {P A : Type} [LinearOrder P]

def Period.holds (p : Period P A) (u : P) : Bool :=
  p.start.all (fun a => decide (a ≤ u)) && p.stop.all fun b => decide (u < b)

/-- The period, ended before a point. -/
def Period.endAt (p : Period P A) (v : P) : Period P A := { p with stop := some v }

/-- Ends the first period that holds at a point. -/
def closeFirst (v : P) : List (Period P A) → List (Period P A)
  | [] => []
  | p :: rest => if p.holds v then p.endAt v :: rest else p :: closeFirst v rest

/-- The value at a point. -/
def valueAt (u : P) (line : List (Period P A)) : Option A := (line.find? fun p => p.holds u).map Period.value

/-- Another value, or none, from a point on. -/
def record (v : P) (value : Option A) (line : List (Period P A)) : List (Period P A) :=
  closeFirst v line ++ value.toList.map fun a => ⟨some v, none, a⟩

/-- No two periods hold at one point. -/
def Apart (line : List (Period P A)) : Prop := ∀ u, line.countP (fun p => p.holds u) ≤ 1

variable {p : Period P A} {u v : P} {line : List (Period P A)}

lemma holds_endAt_of_lt (here : p.holds v = true) (lt : u < v) : (p.endAt v).holds u = p.holds u := by
  obtain ⟨start, stop, value⟩ := p
  rw [Period.holds, Bool.and_eq_true] at here
  have before : stop.all (fun b => decide (u < b)) = true := by
    cases stop with
    | none => rfl
    | some b => exact decide_eq_true (lt.trans (of_decide_eq_true here.2))
  rw [Period.endAt, Period.holds, Period.holds]
  dsimp only
  rw [before, Option.all_some, decide_eq_true lt]

lemma holds_endAt_of_le (le : v ≤ u) : (p.endAt v).holds u = false := by
  rw [Period.endAt, Period.holds, Option.all_some, decide_eq_false (not_lt.mpr le), Bool.and_false]

/-- A period without an end holds from its start on. -/
lemma holds_new (a : A) : (⟨some v, none, a⟩ : Period P A).holds u = decide (v ≤ u) := by
  rw [Period.holds, Option.all_some, Option.all_none, Bool.and_true]

/-! ## Before the point -/

lemma valueAt_cons (p : Period P A) (line : List (Period P A)) :
    valueAt u (p :: line) = if p.holds u then some p.value else valueAt u line := by
  rw [valueAt, List.find?_cons]
  split
  case h_1 holds => rw [holds, if_pos rfl, Option.map_some]
  case h_2 holds => rw [holds, if_neg Bool.false_ne_true, valueAt]

lemma valueAt_append (line line' : List (Period P A)) :
    valueAt u (line ++ line') = (valueAt u line).or (valueAt u line') := by
  rw [valueAt, List.find?_append, Option.map_or, valueAt, valueAt]

/-- Where nothing holds, nothing is ended. -/
lemma closeFirst_of_valueAt_eq_none (none : valueAt v line = none) : closeFirst v line = line := by
  induction line with
  | nil => rfl
  | cons p rest ih =>
    rw [valueAt_cons] at none
    rw [closeFirst]
    split
    case isTrue here =>
      rw [if_pos here] at none
      cases none
    case isFalse away =>
      rw [if_neg away] at none
      rw [ih none]

lemma valueAt_closeFirst_of_lt (lt : u < v) : valueAt u (closeFirst v line) = valueAt u line := by
  induction line with
  | nil => rfl
  | cons p rest ih =>
    rw [closeFirst]
    split
    case isTrue here =>
      rw [valueAt_cons, valueAt_cons, holds_endAt_of_lt here lt]
      rfl
    case isFalse => rw [valueAt_cons, valueAt_cons, ih]

lemma countP_closeFirst_of_lt (lt : u < v) :
    (closeFirst v line).countP (fun p => p.holds u) = line.countP fun p => p.holds u := by
  induction line with
  | nil => rfl
  | cons p rest ih =>
    rw [closeFirst]
    split
    case isTrue here => rw [List.countP_cons, List.countP_cons, holds_endAt_of_lt here lt]
    case isFalse => rw [List.countP_cons, List.countP_cons, ih]

lemma valueAt_new_of_lt (lt : u < v) (value : Option A) :
    valueAt u (value.toList.map fun a => (⟨some v, none, a⟩ : Period P A)) = none := by
  cases value with
  | none => rfl
  | some a =>
    rw [Option.toList_some, List.map_singleton, valueAt_cons, holds_new, decide_eq_false (not_le.mpr lt),
      if_neg Bool.false_ne_true]
    rfl

/-- What was before the point stays. -/
theorem valueAt_record_of_lt (lt : u < v) (value : Option A) : valueAt u (record v value line) = valueAt u line := by
  rw [record, valueAt_append, valueAt_closeFirst_of_lt lt, valueAt_new_of_lt lt, Option.or_none]

/-! ## From the point on -/

/-- From the point on there is what did not hold at it. -/
lemma countP_closeFirst_of_le (once : line.countP (fun p => p.holds v) ≤ 1) (le : v ≤ u) :
    (closeFirst v line).countP (fun p => p.holds u) = line.countP fun p => !p.holds v && p.holds u := by
  induction line with
  | nil => rfl
  | cons p rest ih =>
    rw [List.countP_cons] at once
    rw [closeFirst]
    split
    case isTrue here =>
      rw [here, if_pos rfl] at once
      have others : ∀ q ∈ rest, q.holds v = false := by
        intro q mem
        have none := List.countP_eq_zero.mp (Nat.le_zero.mp (Nat.le_of_succ_le_succ once)) q mem
        exact Bool.eq_false_iff.mpr none
      rw [List.countP_cons, List.countP_cons, holds_endAt_of_le le, here]
      refine congrArg₂ _ (List.countP_congr fun q mem => ?_) rfl
      rw [others q mem, Bool.not_false, Bool.true_and]
    case isFalse away =>
      rw [if_neg away] at once
      rw [List.countP_cons, List.countP_cons, ih once, Bool.eq_false_iff.mpr away, Bool.not_false, Bool.true_and]

/-- Nothing else holds at the point. -/
lemma valueAt_closeFirst_self (once : line.countP (fun p => p.holds v) ≤ 1) : valueAt v (closeFirst v line) = none := by
  have none : (closeFirst v line).countP (fun p => p.holds v) = 0 := by
    rw [countP_closeFirst_of_le once le_rfl, List.countP_eq_zero]
    intro p _
    cases p.holds v <;> decide
  rw [valueAt, List.find?_eq_none.mpr (List.countP_eq_zero.mp none)]
  rfl

/-- The new value is the one at the point. -/
theorem valueAt_record_self (once : line.countP (fun p => p.holds v) ≤ 1) (value : Option A) :
    valueAt v (record v value line) = value := by
  rw [record, valueAt_append, valueAt_closeFirst_self once, Option.none_or]
  cases value with
  | none => rfl
  | some a =>
    rw [Option.toList_some, List.map_singleton, valueAt_cons, holds_new, decide_eq_true le_rfl, if_pos rfl]

/-- Another period than the one that holds at the point doesn't hold later either. -/
def NothingLater (v : P) (line : List (Period P A)) : Prop :=
  ∀ p ∈ line, p.holds v = false → ∀ u, v < u → p.holds u = false

lemma countP_later_eq_zero (later : NothingLater v line) (le : v ≤ u) :
    line.countP (fun p => !p.holds v && p.holds u) = 0 := by
  rw [List.countP_eq_zero]
  intro p mem
  cases here : p.holds v with
  | true => simp
  | false =>
    rcases eq_or_lt_of_le le with rfl | lt
    · rw [here]
      decide
    · rw [later p mem here u lt]
      decide

lemma countP_record_of_le (once : line.countP (fun p => p.holds v) ≤ 1) (le : v ≤ u) (value : Option A) :
    (record v value line).countP (fun p => p.holds u) =
      line.countP (fun p => !p.holds v && p.holds u) + value.toList.length := by
  rw [record, List.countP_append, countP_closeFirst_of_le once le]
  cases value with
  | none => rfl
  | some a =>
    rw [Option.toList_some, List.map_singleton, List.countP_singleton, holds_new, decide_eq_true le, if_pos rfl]
    rfl

/-- After a value was recorded the periods are apart exactly if nothing else holds later, or no value was. -/
theorem apart_record_iff (apart : Apart line) (value : Option A) :
    Apart (record v value line) ↔ value = none ∨ NothingLater v line := by
  constructor
  · intro apart'
    cases value with
    | none => exact .inl rfl
    | some a =>
      refine .inr fun p mem here u lt => ?_
      by_contra holds
      have count := apart' u
      rw [countP_record_of_le (apart v) lt.le] at count
      have none := List.countP_eq_zero.mp (Nat.le_zero.mp (Nat.le_of_succ_le_succ count)) p mem
      rw [here, Bool.not_false, Bool.true_and] at none
      exact none (Bool.not_eq_false _ ▸ holds)
  · intro condition u
    rcases lt_or_ge u v with lt | le
    · have new : (value.toList.map fun a => (⟨some v, none, a⟩ : Period P A)).countP (fun p => p.holds u) = 0 := by
        rw [List.countP_eq_zero]
        intro p mem
        obtain ⟨a, -, rfl⟩ := List.mem_map.mp mem
        rw [holds_new, decide_eq_false (not_le.mpr lt)]
        decide
      rw [record, List.countP_append, countP_closeFirst_of_lt lt, new]
      exact apart u
    · rw [countP_record_of_le (apart v) le]
      rcases condition with rfl | later
      · have fewer : line.countP (fun p => !p.holds v && p.holds u) ≤ line.countP fun p => p.holds u := by
          apply List.countP_mono_left
          intro p _ both
          exact (Bool.and_eq_true _ _ ▸ both).2
        exact Nat.le_trans fewer (apart u)
      · rw [countP_later_eq_zero later le, Nat.zero_add]
        cases value with
        | none => exact Nat.zero_le _
        | some a => exact Nat.le_refl _

end
end ArchipelagoXL.Timeline
