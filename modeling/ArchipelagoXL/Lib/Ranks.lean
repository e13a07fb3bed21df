import Mathlib.Data.List.Sort
import Mathlib.Data.List.Count
import Mathlib.Tactic.Common

/-!
# Ranks

Where an element stands in a sorted list, told by counting in the list before it was sorted: as many elements
stand before it as have a smaller key, and those with the same key stay in their order.
-/

namespace ArchipelagoXL.Ranks

variable {A K : Type} [LinearOrder K]

/-- A list sorted by a key; elements with the same key stay in their order. -/
def sortBy (key : A → K) (l : List A) : List A := l.insertionSort fun a b => key a ≤ key b

variable (key : A → K)

lemma sortBy_perm (l : List A) : (sortBy key l).Perm l := List.perm_insertionSort _ _

instance isTrans_key : IsTrans A fun a b => key a ≤ key b := ⟨fun _ _ _ => le_trans⟩

instance total_key : Std.Total fun a b => key a ≤ key b := ⟨fun a b => le_total (key a) (key b)⟩

lemma sortBy_sorted (l : List A) : (sortBy key l).Pairwise fun a b => key a ≤ key b :=
  List.pairwise_insertionSort _ _

/-- Sorting what is mapped is mapping what is sorted. -/
lemma sortBy_map {B : Type} (key : B → K) (f : A → B) (l : List A) :
    (sortBy (fun a => key (f a)) l).map f = sortBy key (l.map f) :=
  List.map_insertionSort _ _ f l fun _ _ _ _ => Iff.rfl

variable {key : A → K}

/-- Only the keys of the elements matter. -/
lemma sortBy_congr {key' : A → K} {l : List A} (same : ∀ a ∈ l, key a = key' a) : sortBy key l = sortBy key' l := by
  have sorted := List.map_insertionSort (fun a b => key a ≤ key b) (fun a b => key' a ≤ key' b) id l
    fun a memA b memB => by rw [same a memA, same b memB, id, id]
  rwa [List.map_id, List.map_id] at sorted

/-- Elements with one key stay in their order. -/
lemma filter_sortBy {p : A → Bool} {l : List A}
    (same : ∀ a ∈ l, p a = true → ∀ b ∈ l, p b = true → key a = key b) : (sortBy key l).filter p = l.filter p := by
  have pairwise : (l.filter p).Pairwise fun a b => key a ≤ key b := by
    apply List.pairwise_of_forall_mem_list
    intro a memA b memB
    obtain ⟨inA, isA⟩ := List.mem_filter.mp memA
    obtain ⟨inB, isB⟩ := List.mem_filter.mp memB
    exact (same a inA isA b inB isB).le
  have kept : (l.filter p).Sublist ((sortBy key l).filter p) := by
    have inside := (List.sublist_insertionSort pairwise List.filter_sublist).filter p
    simp only [List.filter_filter, Bool.and_self] at inside
    exact inside
  exact (kept.eq_of_length ((sortBy_perm key l).filter p).length_eq.symm).symm

/-- What is sorted and has different keys is strictly sorted. -/
lemma sortBy_strict {l : List A} (distinct : (l.map key).Nodup) :
    (sortBy key l).Pairwise fun a b => key a < key b := by
  have nodup : ((sortBy key l).map key).Nodup := ((sortBy_perm key l).map key).nodup_iff.mpr distinct
  have both := (sortBy_sorted key l).and (List.pairwise_map.mp nodup)
  exact both.imp fun {a b} h => lt_of_le_of_ne h.1 h.2

/-- Before an element of a strictly sorted list stand those with smaller keys. -/
lemma take_of_strict {l : List A} (strict : l.Pairwise fun a b => key a < key b) {k : ℕ} {a : A}
    (place : l[k]? = some a) : l.take k = l.filter fun b => key b < key a := by
  obtain ⟨inside, here⟩ := List.getElem?_eq_some_iff.mp place
  have split : l.take k ++ a :: l.drop (k + 1) = l := by
    rw [← here, List.getElem_cons_drop, List.take_append_drop]
  have strict' := strict
  rw [← split, List.pairwise_append] at strict'
  obtain ⟨_, after, before⟩ := strict'
  have smaller : (l.take k).filter (fun b => decide (key b < key a)) = l.take k :=
    List.filter_eq_self.mpr fun b mem => decide_eq_true (before b mem a List.mem_cons_self)
  have larger : (a :: l.drop (k + 1)).filter (fun b => decide (key b < key a)) = [] := by
    apply List.filter_eq_nil_iff.mpr
    intro b mem
    rw [decide_eq_true_iff, not_lt]
    rcases List.mem_cons.mp mem with rfl | mem
    · exact le_rfl
    · exact ((List.pairwise_cons.mp after).1 b mem).le
  calc l.take k = (l.take k ++ a :: l.drop (k + 1)).filter (fun b => decide (key b < key a)) := by
        rw [List.filter_append, smaller, larger, List.append_nil]
    _ = l.filter fun b => decide (key b < key a) := by rw [split]

/-! ## The place of an element -/

/-- A sorted list is what is smaller than a key, what has it and what is larger. -/
lemma parts_of_sorted {l : List A} (sorted : l.Pairwise fun a b => key a ≤ key b) (k : K) :
    l.filter (fun b => key b < k) ++ l.filter (fun b => key b = k) ++ l.filter (fun b => k < key b) = l := by
  induction l with
  | nil => rfl
  | cons b l ih =>
    obtain ⟨after, sorted⟩ := List.pairwise_cons.mp sorted
    have none {p : A → Bool} (not : ∀ c ∈ l, ¬p c) : l.filter p = [] := List.filter_eq_nil_iff.mpr not
    rcases lt_trichotomy (key b) k with lt | same | gt
    · simp only [List.filter_cons, decide_eq_true lt, decide_eq_false lt.ne, decide_eq_false lt.not_gt, if_true,
        Bool.false_eq_true, if_false, List.cons_append]
      rw [ih sorted]
    · have smaller : l.filter (fun c => key c < k) = [] :=
        none fun c mem => by simpa using same ▸ after c mem
      have rest := ih sorted
      rw [smaller, List.nil_append] at rest
      simp only [List.filter_cons, same, lt_self_iff_false, decide_false, decide_true, if_true, Bool.false_eq_true,
        if_false, smaller, List.nil_append, List.cons_append]
      rw [rest]
    · have smaller : l.filter (fun c => key c < k) = [] :=
        none fun c mem => by simpa using gt.le.trans (after c mem)
      have same : l.filter (fun c => key c = k) = [] :=
        none fun c mem => by simpa using (gt.trans_le (after c mem)).ne'
      have rest := ih sorted
      rw [smaller, same, List.nil_append, List.nil_append] at rest
      simp only [List.filter_cons, decide_eq_false gt.not_gt, decide_eq_false gt.ne', decide_eq_true gt, if_true,
        Bool.false_eq_true, if_false, smaller, same, List.nil_append]
      rw [rest]

/-- The place of an element among those of a kind. -/
lemma getElem?_filter_iff {p : A → Bool} {l : List A} {t : ℕ} {a : A} :
    (l.filter p)[t]? = some a ↔ p a = true ∧ ∃ j : ℕ, l[j]? = some a ∧ (l.take j).countP p = t := by
  induction l generalizing t with
  | nil => simp
  | cons b l ih =>
    rw [← Nat.or_exists_add_one]
    simp only [List.getElem?_cons_zero, List.getElem?_cons_succ, List.take_zero, List.countP_nil, List.take_succ_cons,
      List.countP_cons]
    by_cases kept : p b = true
    · rw [List.filter_cons_of_pos kept]
      cases t with
      | zero =>
        simp only [kept, if_true, Nat.succ_ne_zero, and_false, exists_false, or_false, and_true,
          List.getElem?_cons_zero]
        constructor
        · intro here
          exact ⟨Option.some.inj here ▸ kept, here⟩
        · exact fun both => both.2
      | succ t =>
        simp only [kept, if_true, List.getElem?_cons_succ, ih, Nat.add_right_cancel_iff, (Nat.succ_ne_zero t).symm,
          and_false, false_or]
    · rw [List.filter_cons_of_neg kept, ih]
      simp only [kept, if_false, Nat.add_zero, Bool.false_eq_true]
      constructor
      · rintro ⟨is, j, place, count⟩
        exact ⟨is, .inr ⟨j, place, count⟩⟩
      · rintro ⟨is, ⟨here, _⟩ | later⟩
        · exact absurd (Option.some.inj here ▸ is) kept
        · exact ⟨is, later⟩

/-- Before an element of a sorted list stand those with smaller keys, and those with its key that stood before it. -/
theorem getElem?_sortBy_iff {l : List A} {i : ℕ} {a : A} :
    (sortBy key l)[i]? = some a ↔ ∃ j : ℕ, l[j]? = some a ∧
      l.countP (fun b => key b < key a) + (l.take j).countP (fun b => key b = key a) = i := by
  have parts := parts_of_sorted (sortBy_sorted key l) (key a)
  have same : (sortBy key l).filter (fun b => key b = key a) = l.filter fun b => key b = key a :=
    filter_sortBy fun b _ hb c _ hc => (of_decide_eq_true hb).trans (of_decide_eq_true hc).symm
  have smaller : ((sortBy key l).filter fun b => key b < key a).length = l.countP fun b => key b < key a := by
    rw [← List.countP_eq_length_filter, (sortBy_perm key l).countP_eq]
  rw [same, List.append_assoc] at parts
  have inside (t : ℕ) : (l.filter fun b => key b = key a)[t]? = some a ↔
      ∃ j : ℕ, l[j]? = some a ∧ (l.take j).countP (fun b => key b = key a) = t := by
    rw [getElem?_filter_iff, and_iff_right (decide_eq_true rfl)]
  rw [← parts]
  constructor
  · intro place
    rw [List.getElem?_append] at place
    split at place
    case isTrue before =>
      have lt := of_decide_eq_true (List.mem_filter.mp (List.mem_of_getElem? place)).2
      exact absurd lt (lt_irrefl _)
    case isFalse notBefore =>
      rw [List.getElem?_append] at place
      split at place
      case isTrue =>
        obtain ⟨j, here, count⟩ := (inside _).mp place
        refine ⟨j, here, ?_⟩
        rw [count, ← smaller]
        omega
      case isFalse =>
        have gt := of_decide_eq_true (List.mem_filter.mp (List.mem_of_getElem? place)).2
        exact absurd gt (lt_irrefl _)
  · rintro ⟨j, here, rfl⟩
    have place := (inside _).mpr ⟨j, here, rfl⟩
    obtain ⟨bound, _⟩ := List.getElem?_eq_some_iff.mp place
    rw [← smaller, List.getElem?_append_right (Nat.le_add_right _ _), Nat.add_sub_cancel_left,
      List.getElem?_append_left bound, place]

end ArchipelagoXL.Ranks
