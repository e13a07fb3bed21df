import Mathlib.Algebra.BigOperators.Group.Finset.Basic
import Mathlib.Algebra.GroupWithZero.Nat
import Mathlib.Data.List.AList
import Mathlib.Tactic.Common

/-!
# Tallies

Maps that keep a number for each key, where a key that is missing counts for zero. Entries are added up one after
the other, as long as each sum stays below a bound; what comes out has for each key the sum of its entries, and
nothing comes out just if one of these sums reaches the bound (`tally_ok`, `tally_error`).
-/

namespace ArchipelagoXL.Tally

variable {α ε : Type} [DecidableEq α]

/-- The number for a key. -/
def count (m : AList fun _ : α => ℕ) (k : α) : ℕ := (m.lookup k).getD 0

/-- The sum of the entries with a key. -/
def total (es : List (α × ℕ)) (k : α) : ℕ := ((es.filter fun e => e.1 = k).map Prod.snd).sum

/-- Adds up entries; `e` is raised when a sum reaches the bound. -/
def tally (bound : ℕ) (e : ε) : List (α × ℕ) → (AList fun _ : α => ℕ) → Except ε (AList fun _ : α => ℕ)
  | [], m => .ok m
  | (k, n) :: es, m => if count m k + n < bound then tally bound e es (m.insert k (count m k + n)) else .error e

@[simp] lemma count_empty (k : α) : count ∅ k = 0 := rfl

lemma count_insert_self (m : AList fun _ : α => ℕ) (k : α) (n : ℕ) : count (m.insert k n) k = n := by
  rw [count, AList.lookup_insert]
  rfl

lemma count_insert_ne (m : AList fun _ : α => ℕ) {k k' : α} (n : ℕ) (other : k' ≠ k) :
    count (m.insert k n) k' = count m k' := by
  rw [count, AList.lookup_insert_ne other, count]

lemma count_of_mem {m : AList fun _ : α => ℕ} {k : α} {n : ℕ} (mem : ⟨k, n⟩ ∈ m.entries) : count m k = n := by
  rw [count, AList.mem_lookup_iff.mpr mem]
  rfl

/-- A key that counts for something is in the map with its number. -/
lemma mem_of_count {m : AList fun _ : α => ℕ} {k : α} (counts : count m k ≠ 0) : ⟨k, count m k⟩ ∈ m.entries := by
  apply AList.mem_lookup_iff.mp
  cases found : m.lookup k with
  | none =>
    rw [count, found] at counts
    exact (counts rfl).elim
  | some n =>
    rw [count, found]
    rfl

lemma total_cons (k n) (es : List (α × ℕ)) (k' : α) :
    total ((k, n) :: es) k' = (if k = k' then n else 0) + total es k' := by
  rw [total, List.filter_cons]
  split
  case isTrue here =>
    rw [if_pos (of_decide_eq_true here), List.map_cons, List.sum_cons]
    rfl
  case isFalse other =>
    rw [if_neg fun here => other (decide_eq_true here), Nat.zero_add]
    rfl

lemma count_add (m : AList fun _ : α => ℕ) (k k' : α) (n : ℕ) :
    count (m.insert k (count m k + n)) k' = count m k' + if k = k' then n else 0 := by
  by_cases same : k = k'
  · rw [if_pos same, ← same, count_insert_self]
  · rw [if_neg same, count_insert_ne _ _ (Ne.symm same), Nat.add_zero]

/-- What comes out has the sum of the entries for each key. -/
theorem tally_ok {bound : ℕ} {e : ε} {es : List (α × ℕ)} {m m' : AList fun _ : α => ℕ}
    (done : tally bound e es m = .ok m') (k : α) : count m' k = count m k + total es k := by
  induction es generalizing m with
  | nil =>
    cases done
    rfl
  | cons entry es ih =>
    obtain ⟨k', n⟩ := entry
    rw [tally] at done
    split at done
    case isTrue =>
      rw [ih done, count_add, total_cons]
      omega
    case isFalse => cases done

/-- Nothing but the error comes out otherwise, and then some sum reaches the bound. -/
theorem tally_error {bound : ℕ} {e e' : ε} {es : List (α × ℕ)} {m : AList fun _ : α => ℕ}
    (failed : tally bound e es m = .error e') : e' = e ∧ ∃ k, bound ≤ count m k + total es k := by
  induction es generalizing m with
  | nil => cases failed
  | cons entry es ih =>
    obtain ⟨k, n⟩ := entry
    rw [tally] at failed
    split at failed
    case isTrue =>
      obtain ⟨same, k', high⟩ := ih failed
      refine ⟨same, k', ?_⟩
      rw [count_add] at high
      rw [total_cons]
      omega
    case isFalse high =>
      cases failed
      refine ⟨rfl, k, ?_⟩
      rw [total_cons, if_pos rfl]
      omega

/-! ## Sums over maps -/

lemma total_flatMap {A : Type} (l : List A) (f : A → List (α × ℕ)) (k : α) :
    total (l.flatMap f) k = (l.map fun a => total (f a) k).sum := by
  induction l with
  | nil => rfl
  | cons a l ih =>
    rw [List.flatMap_cons, List.map_cons, List.sum_cons, ← ih]
    simp only [total, List.filter_append, List.map_append, List.sum_append]

/-- The entries of a map have the number of each key. -/
lemma total_entries (m : AList fun _ : α => ℕ) (k : α) :
    total (m.entries.map fun e => (e.1, e.2)) k = count m k := by
  obtain ⟨entries, nodup⟩ := m
  change total (entries.map _) k = (entries.dlookup k).getD 0
  induction entries with
  | nil => rfl
  | cons e rest ih =>
    obtain ⟨k', n⟩ := e
    obtain ⟨new, nodup⟩ := List.nodupKeys_cons.mp nodup
    rw [List.map_cons, total_cons, ih nodup]
    by_cases same : k' = k
    · subst same
      rw [if_pos rfl, List.dlookup_cons_eq, List.dlookup_eq_none.mpr new]
      rfl
    · rw [if_neg same, List.dlookup_cons_ne _ _ (Ne.symm same), Nat.zero_add]

/-- A sum over the values of a map is one over all names that may be its keys. -/
lemma sum_entries {β γ : Type} [DecidableEq β] (m : AList fun _ : β => γ) {φ : γ → ℕ} {d : γ} (blank : φ d = 0)
    {names : List β} (nodup : names.Nodup) (covers : ∀ b ∈ m, b ∈ names) :
    (m.entries.map fun e => φ e.2).sum = (names.map fun b => φ ((m.lookup b).getD d)).sum := by
  have byKey : (m.entries.map fun e => φ e.2) = m.keys.map fun b => φ ((m.lookup b).getD d) := by
    rw [AList.keys, List.keys, List.map_map]
    apply List.map_congr_left
    intro e mem
    rw [Function.comp_apply, AList.mem_lookup_iff.mpr mem]
    rfl
  rw [byKey, ← List.sum_toFinset _ m.keys_nodup, ← List.sum_toFinset _ nodup]
  apply Finset.sum_subset
  · intro b mem
    exact List.mem_toFinset.mpr (covers b (AList.mem_keys.mpr (List.mem_toFinset.mp mem)))
  · intro b _ absent
    have missing : m.lookup b = none := by
      rw [AList.lookup_eq_none]
      exact fun mem => absent (List.mem_toFinset.mpr (AList.mem_keys.mp mem))
    rw [missing]
    exact blank

end ArchipelagoXL.Tally
