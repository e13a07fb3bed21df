import Mathlib.Data.List.Count
import Mathlib.Logic.Function.Basic
import Mathlib.Tactic.Common

/-!
# Maps of lists

A map from keys to lists, the kind that keeps for each key what was filed under it: `push` files a value,
`drop` takes one out and keeps the list even when it is empty, `discard` takes one out and the key with
it once nothing is left. What is filed where is described by counting (`count_push`, `count_drop`,
`count_discard`, and their iterated forms); `NoEmpty` says that no key is left with an empty list.
-/

/-- A map from keys to lists; a key without an entry reads as the empty list. -/
abbrev ListMap (K A : Type) := K → Option (List A)

namespace ListMap

variable {K A : Type}

/-- What is filed under a key. -/
def get (m : ListMap K A) (k : K) : List A := (m k).getD []

/-- No key has an empty list. -/
def NoEmpty (m : ListMap K A) : Prop := ∀ k, m k ≠ some []

/-- A map without empty lists in which nothing is filed has no key. -/
lemma NoEmpty.eq_none {m : ListMap K A} (h : m.NoEmpty) {k : K} (nil : m.get k = []) :
    m k = none := by
  cases e : m k with
  | none => rfl
  | some l =>
    rw [get, e, Option.getD_some] at nil
    exact absurd (by rw [e, nil]) (h k)

variable [DecidableEq K]

/-- Files a value under a key. -/
def push (m : ListMap K A) (k : K) (a : A) : ListMap K A :=
  Function.update m k (some (m.get k ++ [a]))

/-- Files a value under each of some keys. -/
def pushAll (m : ListMap K A) (ks : List K) (a : A) : ListMap K A :=
  ks.foldl (fun m k => m.push k a) m

lemma get_update (m : ListMap K A) (k j : K) (o : Option (List A)) :
    get (Function.update m k o) j = if j = k then o.getD [] else m.get j := by
  unfold get
  by_cases e : j = k
  · subst e
    simp
  · simp [e]

lemma NoEmpty.update {m : ListMap K A} (h : m.NoEmpty) {k : K} {o : Option (List A)}
    (ne : o ≠ some []) : NoEmpty (Function.update m k o) := by
  intro j
  by_cases e : j = k
  · subst e
    rwa [Function.update_self]
  · rw [Function.update_of_ne e]
    exact h j

lemma NoEmpty.push {m : ListMap K A} (h : m.NoEmpty) (k : K) (a : A) : (m.push k a).NoEmpty :=
  h.update (by simp)

lemma NoEmpty.pushAll {m : ListMap K A} (h : m.NoEmpty) (ks : List K) (a : A) :
    (m.pushAll ks a).NoEmpty := by
  induction ks generalizing m with
  | nil => exact h
  | cons k ks ih => exact ih (h.push k a)

variable [DecidableEq A]

/-- Takes a value out once, and leaves the list even when it is empty. -/
def drop (m : ListMap K A) (k : K) (a : A) : ListMap K A :=
  Function.update m k (some ((m.get k).erase a))

/-- Takes a value out once, and the key too if nothing is left. -/
def discard (m : ListMap K A) (k : K) (a : A) : ListMap K A :=
  let m := m.drop k a
  if m.get k = [] then Function.update m k none else m

/-- Takes a value out of each of some keys. -/
def discardAll (m : ListMap K A) (ks : List K) (a : A) : ListMap K A :=
  ks.foldl (fun m k => m.discard k a) m

/-- Takes values out, each of its key, and leaves the lists. -/
def dropPairs (m : ListMap K A) (l : List (K × A)) : ListMap K A :=
  l.foldl (fun m p => m.drop p.1 p.2) m

lemma count_push (m : ListMap K A) (k j : K) (a b : A) :
    ((m.push k a).get j).count b = (m.get j).count b + if j = k ∧ b = a then 1 else 0 := by
  rw [push, get_update]
  by_cases e : j = k
  · subst e
    by_cases f : b = a
    · subst f
      simp
    · simp [f, Ne.symm f]
  · simp [e]

lemma count_pushAll (m : ListMap K A) (ks : List K) (j : K) (a b : A) :
    ((m.pushAll ks a).get j).count b = (m.get j).count b + if b = a then ks.count j else 0 := by
  induction ks generalizing m with
  | nil => simp [pushAll]
  | cons k ks ih =>
    have step : m.pushAll (k :: ks) a = (m.push k a).pushAll ks a := rfl
    rw [step, ih, count_push, List.count_cons]
    by_cases f : b = a
    · simp only [f, beq_iff_eq, and_true, if_true, eq_comm (a := j)]
      omega
    · simp only [f, and_false, if_false]

lemma count_drop (m : ListMap K A) (k j : K) (a b : A) :
    ((m.drop k a).get j).count b = (m.get j).count b - if j = k ∧ b = a then 1 else 0 := by
  rw [drop, get_update]
  by_cases e : j = k
  · subst e
    by_cases f : b = a
    · subst f
      simp
    · simp [f, List.count_erase_of_ne f]
  · simp [e]

lemma get_discard (m : ListMap K A) (k j : K) (a : A) : (m.discard k a).get j = (m.drop k a).get j := by
  unfold discard
  by_cases nil : (m.drop k a).get k = []
  · simp only [nil, if_true, get_update]
    by_cases e : j = k
    · subst e
      simp [nil]
    · simp [e]
  · simp only [nil, if_false]

lemma count_discardAll (m : ListMap K A) (ks : List K) (j : K) (a b : A) :
    ((m.discardAll ks a).get j).count b = (m.get j).count b - if b = a then ks.count j else 0 := by
  induction ks generalizing m with
  | nil => simp [discardAll]
  | cons k ks ih =>
    have step : m.discardAll (k :: ks) a = (m.discard k a).discardAll ks a := rfl
    rw [step, ih, get_discard, count_drop, List.count_cons]
    by_cases f : b = a
    · simp only [f, beq_iff_eq, and_true, if_true, eq_comm (a := j)]
      omega
    · simp only [f, and_false, if_false, Nat.sub_zero]

lemma count_foldl_drop (m : ListMap K A) (ks : List K) (j : K) (a b : A) :
    ((ks.foldl (fun m k => m.drop k a) m).get j).count b = (m.get j).count b - if b = a then ks.count j else 0 := by
  induction ks generalizing m with
  | nil => simp
  | cons k ks ih =>
    rw [List.foldl_cons, ih, count_drop, List.count_cons]
    by_cases f : b = a
    · simp only [f, beq_iff_eq, and_true, if_true, eq_comm (a := j)]
      omega
    · simp only [f, and_false, if_false, Nat.sub_zero]

lemma NoEmpty.discard {m : ListMap K A} (h : m.NoEmpty) (k : K) (a : A) : (m.discard k a).NoEmpty := by
  unfold ListMap.discard
  by_cases nil : (m.drop k a).get k = []
  · simp only [nil, if_true]
    rw [ListMap.drop, Function.update_idem]
    exact h.update fun e => by cases e
  · simp only [nil, if_false]
    apply h.update
    intro e
    rw [ListMap.drop, get_update, if_pos rfl, e] at nil
    exact nil rfl

lemma NoEmpty.discardAll {m : ListMap K A} (h : m.NoEmpty) (ks : List K) (a : A) :
    (m.discardAll ks a).NoEmpty := by
  induction ks generalizing m with
  | nil => exact h
  | cons k ks ih => exact ih (h.discard k a)

lemma count_dropPairs (m : ListMap K A) (l : List (K × A)) (j : K) (b : A) :
    ((m.dropPairs l).get j).count b = (m.get j).count b - l.count (j, b) := by
  induction l generalizing m with
  | nil => simp [dropPairs]
  | cons p l ih =>
    obtain ⟨k, a⟩ := p
    have step : m.dropPairs ((k, a) :: l) = (m.drop k a).dropPairs l := rfl
    rw [step, ih, count_drop, List.count_cons]
    simp only [beq_iff_eq, Prod.mk.injEq, eq_comm (a := j), eq_comm (a := b)]
    omega

lemma dropPairs_of_not_mem {m : ListMap K A} {l : List (K × A)} {j : K} (h : ∀ p ∈ l, p.1 ≠ j) :
    m.dropPairs l j = m j := by
  induction l generalizing m with
  | nil => rfl
  | cons p l ih =>
    have step : m.dropPairs (p :: l) = (m.drop p.1 p.2).dropPairs l := rfl
    rw [step, ih fun q hq => h q (List.mem_cons_of_mem _ hq), drop,
      Function.update_of_ne (h p List.mem_cons_self).symm]

lemma dropPairs_isSome {m : ListMap K A} {l : List (K × A)} {j : K} (h : (m j).isSome) :
    (m.dropPairs l j).isSome := by
  induction l generalizing m with
  | nil => exact h
  | cons p l ih =>
    apply ih
    show (Function.update m p.1 _ j).isSome
    by_cases e : j = p.1
    · subst e
      simp
    · rwa [Function.update_of_ne e]

/-- A key that something was taken out of keeps its list. -/
lemma dropPairs_of_mem {m : ListMap K A} {l : List (K × A)} {p : K × A} (h : p ∈ l) :
    (m.dropPairs l p.1).isSome := by
  induction l generalizing m with
  | nil => cases h
  | cons q l ih =>
    rcases List.mem_cons.1 h with rfl | h
    · have key : (m.drop p.1 p.2 p.1).isSome := by
        rw [drop, Function.update_self]
        rfl
      show ((m.drop p.1 p.2).dropPairs l p.1).isSome
      exact dropPairs_isSome key
    · exact ih h

/-- Taking values out leaves no empty list exactly if every key concerned has something left. -/
lemma NoEmpty.dropPairs_iff {m : ListMap K A} (h : m.NoEmpty) {l : List (K × A)} :
    (m.dropPairs l).NoEmpty ↔ ∀ p ∈ l, (m.dropPairs l).get p.1 ≠ [] := by
  constructor
  · intro none p hp nil
    have key := dropPairs_of_mem (m := m) hp
    rw [none.eq_none nil] at key
    cases key
  · intro left k e
    by_cases mem : ∃ p ∈ l, p.1 = k
    · obtain ⟨p, hp, rfl⟩ := mem
      exact left p hp (by rw [get, e, Option.getD_some])
    · push Not at mem
      rw [dropPairs_of_not_mem mem] at e
      exact h k e

end ListMap
