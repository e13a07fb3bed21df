import Mathlib.Data.List.Sort
import Mathlib.Data.List.Nodup
import Mathlib.Data.String.Basic
import Mathlib.Logic.Function.Basic

/-!
# Maps that are walked in any order

The entries of a map in the order in which some loop goes through them: each key once, in an order that says
nothing. Two of them are the same map when one is a permutation of the other (`Same`). What is computed
from a map must not depend on that order: `sorted` does not (`Same.sorted_eq`), while `invert`, which
looks a map up by its values, is only known to be some inverse (`IsInverse`) of it.
-/

/-- The entries of a map, each key once, in the order of a walk. -/
structure WalkMap (K V : Type) where
  entries : List (K × V)
  nodup : (entries.map Prod.fst).Nodup

namespace WalkMap

variable {K V : Type}

/-- The map without entries. -/
def empty : WalkMap K V := ⟨[], List.nodup_nil⟩

/-- The same map, perhaps walked in another order. -/
def Same (m n : WalkMap K V) : Prop := m.entries.Perm n.entries

lemma Same.symm {m n : WalkMap K V} (h : m.Same n) : n.Same m := List.Perm.symm h

/-- The entries in the order of their keys. -/
def sorted [LinearOrder K] (m : WalkMap K V) : List (K × V) :=
  m.entries.mergeSort fun a b => decide (a.1 ≤ b.1)

/-- The sorted entries are those of the map, not of the walk. -/
theorem Same.sorted_eq [LinearOrder K] {m n : WalkMap K V} (h : m.Same n) : m.sorted = n.sorted := by
  have perm : m.sorted.Perm n.sorted :=
    (List.mergeSort_perm _ _).trans (h.trans (List.mergeSort_perm _ _).symm)
  have inOrder : ∀ l : List (K × V),
      (l.mergeSort fun a b => decide (a.1 ≤ b.1)).Pairwise fun a b => a.1 ≤ b.1 := by
    intro l
    have sorted := @List.pairwise_mergeSort (K × V) (fun a b => decide (a.1 ≤ b.1))
      (by intro a b c; simpa using le_trans) (by intro a b; simpa using le_total a.1 b.1) l
    exact sorted.imp fun h => of_decide_eq_true h
  apply List.Perm.eq_of_pairwise _ (inOrder _) (inOrder _) perm
  intro a b ha hb hab hba
  have ha : a ∈ m.entries := List.mem_mergeSort.mp ha
  have hb : b ∈ m.entries := h.mem_iff.mpr (List.mem_mergeSort.mp hb)
  exact List.inj_on_of_nodup_map m.nodup ha hb (le_antisymm hab hba)

/-- Files the key of an entry under its value. -/
def enter [DecidableEq V] (table : V → Option K) (e : K × V) : V → Option K :=
  Function.update table e.2 (some e.1)

/-- A loop that files each key under its value. -/
def invert [DecidableEq V] (m : WalkMap K V) : V → Option K := m.entries.foldl enter fun _ => none

/-- Looks the keys up by their values; where several have one value it gives one of them. -/
structure IsInverse (m : WalkMap K V) (table : V → Option K) : Prop where
  sound : ∀ {k v}, table v = some k → (k, v) ∈ m.entries
  complete : ∀ {k v}, (k, v) ∈ m.entries → (table v).isSome

lemma Same.isInverse {m n : WalkMap K V} (h : m.Same n) {table : V → Option K}
    (inv : m.IsInverse table) : n.IsInverse table where
  sound e := h.mem_iff.mp (inv.sound e)
  complete e := inv.complete (h.mem_iff.mpr e)

/-- What a table says of a value after the loop, over any part of the walk. -/
lemma foldl_enter [DecidableEq V] (l : List (K × V)) (table : V → Option K) (v : V) :
    (∀ k, l.foldl enter table v = some k → table v = some k ∨ (k, v) ∈ l) ∧
      ((table v).isSome ∨ (∃ k, (k, v) ∈ l) → (l.foldl enter table v).isSome) := by
  induction l generalizing table with
  | nil => exact ⟨fun k h => Or.inl h, fun h => h.elim id fun ⟨k, hk⟩ => absurd hk List.not_mem_nil⟩
  | cons e l ih =>
    obtain ⟨sound, complete⟩ := ih (enter table e)
    by_cases hv : v = e.2
    · subst hv
      have entered : enter table e e.2 = some e.1 := Function.update_self ..
      constructor
      · intro k h
        rcases sound k h with h | h
        · rw [entered] at h
          cases h
          exact Or.inr List.mem_cons_self
        · exact Or.inr (List.mem_cons_of_mem _ h)
      · intro _
        exact complete (Or.inl (by rw [entered]; rfl))
    · have kept : enter table e v = table v := Function.update_of_ne hv ..
      rw [kept] at sound complete
      constructor
      · intro k h
        exact (sound k h).imp_right (List.mem_cons_of_mem _)
      · intro h
        apply complete
        apply h.imp_right
        rintro ⟨k, hk⟩
        rcases List.mem_cons.mp hk with hk | hk
        · exact absurd (congrArg Prod.snd hk) hv
        · exact ⟨k, hk⟩

theorem invert_isInverse [DecidableEq V] (m : WalkMap K V) : m.IsInverse m.invert := by
  constructor
  · intro k v h
    rcases (foldl_enter m.entries _ v).1 k h with h | h
    · cases h
    · exact h
  · intro k v h
    exact (foldl_enter m.entries _ v).2 (Or.inr ⟨k, h⟩)

end WalkMap
