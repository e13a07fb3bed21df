import ArchipelagoXL.Lib.Redis
import Mathlib.Data.List.Sort

/-!
# Sorted sets in their order

A sorted set is kept as a map from members to scores. `Lists z l` says that `l` is the set in the order
of its scores and, among equal scores, of its members' texts. A set has one such list (`exists_lists`,
`Lists.unique`); what is popped is its head, and adding a member puts it into its place
(`Lists.insert`).
-/

namespace Redis

variable {μ : Type} [HasText μ]

/-- What a member is ordered by. -/
def place (e : μ × ℤ) : ℤ ×ₗ String := toLex (e.2, HasText.text e.1)

/-- The sorted set `z` in its order. -/
structure Lists [DecidableEq μ] (z : AList fun _ : μ => ℤ) (l : List (μ × ℤ)) : Prop where
  sorted : l.Pairwise fun a b => place a < place b
  mem : ∀ {m n}, (m, n) ∈ l ↔ z.lookup m = some n

/-- The list with one more member in its place. -/
def intoPlace (e : μ × ℤ) (l : List (μ × ℤ)) : List (μ × ℤ) :=
  l.orderedInsert (fun a b => place a ≤ place b) e

lemma mem_intoPlace {e a : μ × ℤ} {l : List (μ × ℤ)} : a ∈ intoPlace e l ↔ a = e ∨ a ∈ l :=
  List.mem_orderedInsert _

/-- A list in order stays in order when a member with a place of its own is put in. -/
lemma pairwise_intoPlace {e : μ × ℤ} {l : List (μ × ℤ)} (h : l.Pairwise fun a b => place a < place b)
    (own : ∀ a ∈ l, place a ≠ place e) : (intoPlace e l).Pairwise fun a b => place a < place b := by
  induction l with
  | nil => exact List.pairwise_singleton _ _
  | cons b l ih =>
    obtain ⟨first, rest⟩ := List.pairwise_cons.1 h
    have differ := own b List.mem_cons_self
    rw [intoPlace, List.orderedInsert_cons]
    split
    · rename_i le
      have lt : place e < place b := lt_of_le_of_ne le (Ne.symm differ)
      refine List.pairwise_cons.2 ⟨fun a ha => ?_, h⟩
      rcases List.mem_cons.1 ha with rfl | ha
      · exact lt
      · exact lt.trans (first a ha)
    · rename_i nle
      have lt : place b < place e := lt_of_not_ge nle
      refine List.pairwise_cons.2 ⟨fun a ha => ?_, ih rest fun a ha => own a (List.mem_cons_of_mem _ ha)⟩
      rcases mem_intoPlace.1 ha with rfl | ha
      · exact lt
      · exact first a ha

namespace Lists

variable [DecidableEq μ] {z z' : AList fun _ : μ => ℤ} {l l' : List (μ × ℤ)} {e : μ × ℤ} {m : μ} {n : ℤ}

/-- Sets that answer alike have the same list. -/
lemma congr (h : Lists z l) (same : ∀ m, z'.lookup m = z.lookup m) : Lists z' l :=
  ⟨h.sorted, by simp only [same, h.mem, implies_true]⟩

lemma nodup (h : Lists z l) : l.Nodup :=
  h.sorted.imp fun lt eq => lt.ne (congrArg place eq)

/-- A member is listed once. -/
lemma nodup_fst (h : Lists z l) : (l.map (·.1)).Nodup := by
  refine List.pairwise_map.2 (h.nodup.imp_of_mem fun {a b} ha hb ne eq => ne ?_)
  have fst : a.1 = b.1 := eq
  have at_a := h.mem.1 ha
  rw [fst, h.mem.1 hb] at at_a
  exact Prod.ext fst (Option.some.inj at_a).symm

lemma mem_keys (h : Lists z l) : m ∈ z ↔ m ∈ l.map (·.1) := by
  rw [← AList.lookup_isSome, Option.isSome_iff_exists, List.mem_map]
  constructor
  · rintro ⟨n, hn⟩
    exact ⟨(m, n), h.mem.2 hn, rfl⟩
  · rintro ⟨⟨m, n⟩, hm, rfl⟩
    exact ⟨n, h.mem.1 hm⟩

/-- Nothing is popped from an empty set. -/
lemma first_nil (h : Lists z []) : first z = none := by
  cases hf : first z with
  | none => rfl
  | some e => exact absurd (h.mem.2 (first_lookup hf)) List.not_mem_nil

/-- The head of the list is popped. -/
lemma first_cons (h : Lists z (e :: l)) : first z = some e := by
  have inside : (⟨e.1, e.2⟩ : Sigma fun _ : μ => ℤ) ∈ z.entries :=
    AList.mem_lookup_iff.1 (h.mem.1 List.mem_cons_self)
  cases hf : z.entries.argmin fun e => toLex (e.2, HasText.text e.1) with
  | none =>
    rw [List.argmin_eq_none.1 hf] at inside
    cases inside
  | some a =>
    have listed : (a.1, a.2) ∈ e :: l := h.mem.2 (AList.mem_lookup_iff.2 (List.argmin_mem hf))
    have least : ¬ place e < place (a.1, a.2) :=
      List.not_lt_of_mem_argmin (f := fun e : Sigma fun _ : μ => ℤ => toLex (e.2, HasText.text e.1))
        inside hf
    rcases List.mem_cons.1 listed with eq | later
    · rw [first, hf, ← eq]
      rfl
    · exact absurd ((List.pairwise_cons.1 h.sorted).1 _ later) least

/-- Without its head's member the set has the tail. -/
lemma tail (h : Lists z (e :: l)) : Lists (z.erase e.1) l := by
  obtain ⟨before, sorted⟩ := List.pairwise_cons.1 h.sorted
  refine ⟨sorted, fun {m n} => ?_⟩
  by_cases eq : m = e.1
  · subst eq
    rw [AList.lookup_erase]
    refine iff_of_false (fun hm => ?_) (by simp)
    have twice := h.mem.1 (List.mem_cons_of_mem e hm)
    rw [h.mem.1 (List.mem_cons_self (a := e) (l := l)), Option.some.injEq] at twice
    subst twice
    exact lt_irrefl _ (before _ hm)
  · rw [AList.lookup_erase_ne eq, ← h.mem, List.mem_cons]
    exact ⟨.inr, fun hm => hm.resolve_left fun he => eq (congrArg (·.1) he)⟩

/-- A member that was not there gets its place. -/
lemma insert (inj : Function.Injective (HasText.text : μ → String)) (h : Lists (z.erase m) l) :
    Lists (z.insert m n) (intoPlace (m, n) l) := by
  have absent : ∀ a ∈ l, a.1 ≠ m := by
    rintro ⟨_, n'⟩ ha rfl
    simpa using h.mem.1 ha
  refine ⟨pairwise_intoPlace h.sorted fun a ha eq => absent a ha (inj ?_), fun {m' n'} => ?_⟩
  · exact congrArg (fun p => (ofLex p).2) eq
  · rw [mem_intoPlace, h.mem]
    by_cases eq : m' = m
    · subst eq
      simp [eq_comm]
    · simp [AList.lookup_insert_ne eq, AList.lookup_erase_ne eq, eq]

/-- A set has one list only. -/
lemma unique (h : Lists z l) (h' : Lists z l') : l = l' := by
  have perm : l.Perm l' :=
    (List.perm_ext_iff_of_nodup h.nodup h'.nodup).2 fun ⟨m, n⟩ => h.mem.trans h'.mem.symm
  exact perm.eq_of_pairwise (fun a b _ _ lt gt => absurd gt lt.asymm) h.sorted h'.sorted

end Lists

/-- Every set has a list. -/
theorem exists_lists [DecidableEq μ] (inj : Function.Injective (HasText.text : μ → String))
    (z : AList fun _ : μ => ℤ) : ∃ l, Lists z l := by
  induction z using AList.insertRec with
  | H0 => exact ⟨[], .nil, by simp⟩
  | IH m n z out ih =>
    obtain ⟨l, h⟩ := ih
    have erased : ∀ m', (z.erase m).lookup m' = z.lookup m' := by
      intro m'
      by_cases eq : m' = m
      · subst eq
        rw [AList.lookup_erase, AList.lookup_eq_none.2 out]
      · exact AList.lookup_erase_ne eq
    exact ⟨_, (h.congr erased).insert inj⟩

end Redis
