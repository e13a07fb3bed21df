import Mathlib.Data.List.Nodup
import Mathlib.Data.List.Range
import Mathlib.Data.List.Perm.Subperm
import Mathlib.Tactic.Common

/-!
# The search for a free name

A loop tries one candidate after the other until one is not taken. Candidates that are all different can't all be
taken, so the loop ends after at most one more round than there are names taken (`searchFrom_ends`).
-/

namespace ArchipelagoXL.Search

/-- The first number from `start` on that is free; nothing if the fuel does not suffice. -/
def searchFrom (free : ℕ → Bool) : ℕ → ℕ → Option ℕ
  | 0, _ => none
  | fuel + 1, start => if free start then some start else searchFrom free fuel (start + 1)

lemma searchFrom_eq (free : ℕ → Bool) (fuel start : ℕ) :
    searchFrom free fuel start = (List.range' start fuel).find? free := by
  induction fuel generalizing start with
  | zero => rfl
  | succ fuel ih =>
    rw [searchFrom, List.range'_succ, List.find?_cons, ih]
    cases free start <;> rfl

/-- Fuel that suffices does so when there is more. -/
lemma searchFrom_mono {free : ℕ → Bool} {fuel fuel' start n : ℕ} (le : fuel ≤ fuel')
    (found : searchFrom free fuel start = some n) : searchFrom free fuel' start = some n := by
  obtain ⟨more, rfl⟩ := Nat.exists_eq_add_of_le le
  rw [searchFrom_eq] at found ⊢
  rw [← List.range'_append_1, List.find?_append, found]
  rfl

variable {A : Type} [DecidableEq A] {candidate : ℕ → A}

/-- One of the first candidates is free. -/
lemma exists_free (different : Function.Injective candidate) (taken : List A) :
    ∃ n ≤ taken.length, candidate n ∉ taken := by
  by_contra allTaken
  push Not at allTaken
  have inside : (List.range (taken.length + 1)).map candidate ⊆ taken := by
    intro name mem
    obtain ⟨n, small, rfl⟩ := List.mem_map.mp mem
    exact allTaken n (Nat.lt_succ_iff.mp (List.mem_range.mp small))
  have short := (List.subperm_of_subset (List.nodup_range.map different) inside).length_le
  rw [List.length_map, List.length_range] at short
  omega

/-- The search for a candidate ends. -/
lemma searchFrom_ends (different : Function.Injective candidate) (taken : List A) :
    ∃ n ≤ taken.length, candidate n ∉ taken ∧
      ∀ fuel > taken.length, searchFrom (fun n => !taken.contains (candidate n)) fuel 0 = some n := by
  obtain ⟨m, small, free⟩ := exists_free different taken
  rcases found : searchFrom (fun n => !taken.contains (candidate n)) (taken.length + 1) 0 with _ | n
  case none =>
    rw [searchFrom_eq] at found
    have inRange : m ∈ List.range' 0 (taken.length + 1) := by
      rw [List.mem_range'_1]
      omega
    have takenToo := List.find?_eq_none.mp found m inRange
    simp [free] at takenToo
  case some =>
    refine ⟨n, ?_, ?_, fun fuel enough => searchFrom_mono enough found⟩
    · rw [searchFrom_eq] at found
      have inRange := List.mem_of_find?_eq_some found
      rw [List.mem_range'_1] at inRange
      omega
    · rw [searchFrom_eq] at found
      simpa using List.find?_some found

end ArchipelagoXL.Search
