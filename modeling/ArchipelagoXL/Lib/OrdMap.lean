import Mathlib

/-!
# Ordered maps and loops over their entries

`BTreeMap` is the extensional search tree of the standard library over a linear order. The loops of
a program that walks one map and touches the entry of the same key in another (`forEntries`, and
`forEntriesM` where a turn may fail) have their meaning stated key by key, so that what such a loop
computes is read off without an induction of its own. The last part is about searching the
entries in key order: the first entry with a property and the entry with the greatest key.
-/

/-- The comparison of a linear order is transitive, which the tree asks for. -/
instance (priority := 2000) transCmp_compare {K : Type*} [LinearOrder K] :
    Std.TransCmp (compare : K → K → Ordering) := inferInstance

/-- The comparison of a linear order tells different keys apart. -/
instance (priority := 2000) lawfulEqCmp_compare {K : Type*} [LinearOrder K] :
    Std.LawfulEqCmp (compare : K → K → Ordering) := inferInstance

/-- A map with its entries in the order of their keys. -/
abbrev BTreeMap (K : Type*) (A : Type*) [LinearOrder K] := Std.ExtTreeMap K A compare

namespace BTreeMap

variable {K A B E : Type*} [LinearOrder K]

/-- Membership is having a value. -/
lemma mem_iff_exists {m : BTreeMap K A} {k : K} : k ∈ m ↔ ∃ a, m[k]? = some a := by
  rw [Std.ExtTreeMap.mem_iff_isSome_getElem?, Option.isSome_iff_exists]

/-- The keys come in strictly increasing order. -/
lemma keys_sorted (m : BTreeMap K A) : m.keys.Pairwise (· < ·) := by
  have h := Std.ExtTreeMap.ordered_keys (t := m)
  exact h.imp fun h => compare_lt_iff_lt.mp h

/-- The entries come in strictly increasing order of their keys. -/
lemma toList_sorted (m : BTreeMap K A) : m.toList.Pairwise (fun a b => a.1 < b.1) := by
  have h := Std.ExtTreeMap.ordered_keys_toList (t := m)
  exact h.imp fun h => compare_lt_iff_lt.mp h

/-- What is found in the entries is found in the map. -/
lemma lookup_toList_map (m : BTreeMap K A) (k : K) (f : A → B) :
    (m.toList.map fun e => (e.1, f e.2)).lookup k = m[k]?.map f := by
  cases found : m[k]? with
  | none =>
    apply List.lookup_eq_none_iff.mpr
    intro e mem
    obtain ⟨⟨k', a⟩, there, rfl⟩ := List.mem_map.mp mem
    rw [bne_iff_ne]
    rintro rfl
    rw [Std.ExtTreeMap.mem_toList_iff_getElem?_eq_some.mp there] at found
    cases found
  | some a =>
    have there := Std.ExtTreeMap.mem_toList_iff_getElem?_eq_some.mpr found
    obtain ⟨before, after, split⟩ := List.append_of_mem there
    have sorted := toList_sorted m
    rw [split, List.pairwise_append] at sorted
    apply List.lookup_eq_some_iff.mpr
    refine ⟨before.map fun e => (e.1, f e.2), after.map fun e => (e.1, f e.2), ?_, ?_⟩
    · rw [split, List.map_append]
      rfl
    · intro e mem
      obtain ⟨e', there', rfl⟩ := List.mem_map.mp mem
      exact bne_iff_ne.mpr (sorted.2.2 e' there' _ List.mem_cons_self).ne'

/-- A map without entries is one without keys. -/
lemma isEmpty_iff {m : BTreeMap K A} : m.isEmpty = true ↔ ∀ k : K, m[k]? = none := by
  rw [Std.ExtTreeMap.isEmpty_iff]
  constructor
  · rintro rfl k
    simp
  · intro h
    apply Std.ExtTreeMap.ext_getElem?
    intro k
    simp [h k]

/-- Leaving an entry as it is leaves the map as it is. -/
lemma alter_self (m : BTreeMap K A) (k : K) : (m.alter k fun entry => entry) = m := by
  apply Std.ExtTreeMap.ext_getElem?
  intro j
  rw [Std.ExtTreeMap.getElem?_alter]
  split
  · rename_i heq
    rw [compare_eq_iff_eq.mp heq]
  · rfl

section Loops

/-- One turn of a loop: the entry of `k` becomes `g k a` of what it was. -/
def turn (g : K → A → Option B → Option B) (acc : BTreeMap K B) (k : K) (a : A) : BTreeMap K B :=
  acc.alter k (g k a)

/-- A loop over the entries of `m` whose turn for `k` touches only the entry of `k` in `acc`. -/
def forEntries (m : BTreeMap K A) (acc : BTreeMap K B) (g : K → A → Option B → Option B) :
    BTreeMap K B :=
  m.foldl (turn g) acc

/-- A turn that may fail. -/
def turnM (g : K → A → Option B → Except E (Option B)) (acc : BTreeMap K B) (k : K) (a : A) :
    Except E (BTreeMap K B) :=
  match g k a acc[k]? with
  | .ok b => .ok (acc.alter k fun _ => b)
  | .error e => .error e

/-- The same loop where a turn may fail, which ends it. -/
def forEntriesM (m : BTreeMap K A) (acc : BTreeMap K B)
    (g : K → A → Option B → Except E (Option B)) : Except E (BTreeMap K B) :=
  m.foldlM (turnM g) acc

@[simp]
lemma turn_self {g : K → A → Option B → Option B} {acc : BTreeMap K B} {k : K} {a : A} :
    (turn g acc k a)[k]? = g k a acc[k]? := by
  simp [turn]

lemma turn_ne {g : K → A → Option B → Option B} {acc : BTreeMap K B} {k j : K} {a : A}
    (hne : k ≠ j) : (turn g acc k a)[j]? = acc[j]? := by
  simp [turn, Std.ExtTreeMap.getElem?_alter, hne]

/-- A run of turns leaves the keys it does not meet alone. -/
lemma foldl_turn_of_not_mem {g : K → A → Option B → Option B} {l : List (K × A)}
    {acc : BTreeMap K B} {j : K} (hj : ∀ p ∈ l, p.1 ≠ j) :
    (l.foldl (fun acc p => turn g acc p.1 p.2) acc)[j]? = acc[j]? := by
  induction l generalizing acc with
  | nil => rfl
  | cons p l ih =>
    rw [List.foldl_cons, ih fun q hq => hj q (List.mem_cons_of_mem _ hq)]
    exact turn_ne (hj p List.mem_cons_self)

/-- With each key met once, the turn of a key is the only one that counts for it. -/
lemma foldl_turn_of_mem {g : K → A → Option B → Option B} {l : List (K × A)}
    {acc : BTreeMap K B} {k : K} {a : A} (hl : l.Pairwise (fun p q => p.1 < q.1))
    (hk : (k, a) ∈ l) :
    (l.foldl (fun acc p => turn g acc p.1 p.2) acc)[k]? = g k a acc[k]? := by
  induction l generalizing acc with
  | nil => cases hk
  | cons p l ih =>
    obtain ⟨hp, hl⟩ := List.pairwise_cons.mp hl
    rw [List.foldl_cons]
    rcases List.mem_cons.mp hk with rfl | hk
    · rw [foldl_turn_of_not_mem fun q hq => (hp q hq).ne']
      exact turn_self
    · rw [ih hl hk, turn_ne (hp _ hk).ne]

/-- What the loop leaves at a key. -/
theorem getElem?_forEntries (m : BTreeMap K A) (acc : BTreeMap K B)
    (g : K → A → Option B → Option B) (k : K) :
    (forEntries m acc g)[k]? = m[k]?.elim acc[k]? fun a => g k a acc[k]? := by
  unfold forEntries
  rw [Std.ExtTreeMap.foldl_eq_foldl_toList]
  cases h : m[k]? with
  | some a =>
    exact foldl_turn_of_mem (toList_sorted m)
      (Std.ExtTreeMap.mem_toList_iff_getElem?_eq_some.mpr h)
  | none =>
    apply foldl_turn_of_not_mem
    rintro ⟨j, a⟩ hp rfl
    rw [Std.ExtTreeMap.mem_toList_iff_getElem?_eq_some, h] at hp
    cases hp

/-- A failing loop that gets through computes what the loop of the turns' values computes. -/
lemma foldlM_turnM {g : K → A → Option B → Except E (Option B)} {l : List (K × A)}
    {acc out : BTreeMap K B} (hl : l.Pairwise (fun p q => p.1 < q.1)) :
    l.foldlM (fun acc p => turnM g acc p.1 p.2) acc = .ok out ↔
      (∀ p ∈ l, g p.1 p.2 acc[p.1]? = .ok out[p.1]?) ∧
        ∀ j, (∀ p ∈ l, p.1 ≠ j) → out[j]? = acc[j]? := by
  induction l generalizing acc with
  | nil =>
    constructor
    · intro h
      cases h
      refine ⟨?_, fun j _ => rfl⟩
      intro p hp
      cases hp
    · rintro ⟨-, h⟩
      have : acc = out := by
        apply Std.ExtTreeMap.ext_getElem?
        intro j
        exact (h j (by simp)).symm
      rw [this]
      rfl
  | cons p l ih =>
    obtain ⟨hp, hl⟩ := List.pairwise_cons.mp hl
    rw [List.foldlM_cons]
    cases hg : g p.1 p.2 acc[p.1]? with
    | error e =>
      constructor
      · intro h
        simp [turnM, hg, bind, Except.bind] at h
      · rintro ⟨h, -⟩
        have := h p List.mem_cons_self
        rw [hg] at this
        cases this
    | ok b =>
      have hturn : turnM g acc p.1 p.2 = .ok (acc.alter p.1 fun _ => b) := by
        simp [turnM, hg]
      rw [hturn]
      show l.foldlM (fun acc p => turnM g acc p.1 p.2) (acc.alter p.1 fun _ => b) = .ok out ↔ _
      rw [ih hl]
      -- below the first entry the accumulator of the later keys is still the first one
      have hlater : ∀ j, p.1 ≠ j → (acc.alter p.1 fun _ => b)[j]? = acc[j]? := by
        intro j hj
        simp [Std.ExtTreeMap.getElem?_alter, hj]
      constructor
      · rintro ⟨hin, hout⟩
        refine ⟨?_, ?_⟩
        · intro q hq
          rcases List.mem_cons.mp hq with rfl | hq
          · rw [hg, hout q.1 fun r hr => (hp r hr).ne']
            simp
          · rw [← hlater q.1 (hp q hq).ne]
            exact hin q hq
        · intro j hj
          rw [hout j fun q hq => hj q (List.mem_cons_of_mem _ hq)]
          exact hlater j (hj p List.mem_cons_self)
      · rintro ⟨hin, hout⟩
        refine ⟨?_, ?_⟩
        · intro q hq
          rw [hlater q.1 (hp q hq).ne]
          exact hin q (List.mem_cons_of_mem _ hq)
        · intro j hj
          by_cases hpj : p.1 = j
          · subst hpj
            have := hin p List.mem_cons_self
            rw [hg] at this
            injection this with this
            rw [← this]
            simp
          · rw [hlater j hpj]
            apply hout
            intro q hq
            rcases List.mem_cons.mp hq with rfl | hq
            · exact hpj
            · exact hj q hq

/-- When the loop gets through, and with what. -/
theorem forEntriesM_eq_ok {m : BTreeMap K A} {acc out : BTreeMap K B}
    {g : K → A → Option B → Except E (Option B)} :
    forEntriesM m acc g = .ok out ↔
      (∀ (k : K) (a : A), m[k]? = some a → g k a acc[k]? = .ok out[k]?) ∧
        ∀ k : K, m[k]? = none → out[k]? = acc[k]? := by
  unfold forEntriesM
  rw [Std.ExtTreeMap.foldlM_eq_foldlM_toList, foldlM_turnM (toList_sorted m)]
  have hmem : ∀ k a, (k, a) ∈ m.toList ↔ m[k]? = some a := fun k a =>
    Std.ExtTreeMap.mem_toList_iff_getElem?_eq_some
  constructor
  · rintro ⟨hin, hout⟩
    refine ⟨fun k a h => hin (k, a) ((hmem k a).mpr h), fun k h => hout k ?_⟩
    rintro ⟨j, a⟩ hp rfl
    rw [hmem, h] at hp
    cases hp
  · rintro ⟨hin, hout⟩
    refine ⟨fun p hp => hin p.1 p.2 ((hmem _ _).mp hp), fun j h => hout j ?_⟩
    cases hj : m[j]? with
    | none => rfl
    | some a => exact absurd rfl (h (j, a) ((hmem j a).mpr hj))

/-- The loop gets through when no turn fails. -/
lemma forEntriesM_ok {m : BTreeMap K A} {acc : BTreeMap K B}
    {g : K → A → Option B → Except E (Option B)}
    (h : ∀ (k : K) (a : A), m[k]? = some a → ∃ b, g k a acc[k]? = .ok b) :
    ∃ out, forEntriesM m acc g = .ok out := by
  refine ⟨forEntries m acc fun k a entry => match g k a entry with
    | .ok b => b
    | .error _ => entry, forEntriesM_eq_ok.mpr ⟨?_, ?_⟩⟩
  · intro k a hk
    obtain ⟨b, hb⟩ := h k a hk
    simp [getElem?_forEntries, hk, hb]
  · intro k hk
    simp [getElem?_forEntries, hk]

end Loops

section Collect

/-- A map built from a list of entries (Rust `collect`). -/
def collect (l : List (K × A)) : BTreeMap K A :=
  l.foldl (fun m p => m.insert p.1 p.2) ∅

/-- The keys of a list, all with one value. -/
lemma getElem?_collect_const (l : List K) (a : A) (k : K) :
    (collect (l.map fun j => (j, a)))[k]? = if k ∈ l then some a else none := by
  have hfold : ∀ acc : BTreeMap K A,
      ((l.map fun j => (j, a)).foldl (fun m p => m.insert p.1 p.2) acc)[k]? =
        if k ∈ l then some a else acc[k]? := by
    induction l with
    | nil => simp
    | cons j l ih =>
      intro acc
      rw [List.map_cons, List.foldl_cons, ih, Std.ExtTreeMap.getElem?_insert]
      by_cases hk : k ∈ l
      · simp [hk]
      · by_cases hj : j = k
        · simp [hj]
        · simp [hk, hj, Ne.symm hj]
  unfold collect
  rw [hfold]
  simp

/-- Keys that a list doesn't have keep their values when its entries are put in. -/
lemma getElem?_foldl_insert_of_notMem {l : List (K × A)} {k : K} (notMem : k ∉ l.map Prod.fst) (acc : BTreeMap K A) :
    (l.foldl (fun m p => m.insert p.1 p.2) acc)[k]? = acc[k]? := by
  induction l generalizing acc with
  | nil => rfl
  | cons p l ih =>
    rw [List.map_cons, List.mem_cons, not_or] at notMem
    have other : ¬ compare p.1 k = .eq := by
      rw [compare_eq_iff_eq]
      exact Ne.symm notMem.1
    rw [List.foldl_cons, ih notMem.2, Std.ExtTreeMap.getElem?_insert, if_neg other]

/-- The entries of a list without a key twice. -/
lemma getElem?_collect_of_mem {l : List (K × A)} (nodup : (l.map Prod.fst).Nodup) {k : K} {a : A} (mem : (k, a) ∈ l) :
    (collect l)[k]? = some a := by
  unfold collect
  generalize (∅ : BTreeMap K A) = acc
  induction l generalizing acc with
  | nil => cases mem
  | cons p l ih =>
    rw [List.map_cons, List.nodup_cons] at nodup
    rw [List.foldl_cons]
    rcases List.mem_cons.mp mem with rfl | mem
    · rw [getElem?_foldl_insert_of_notMem nodup.1, Std.ExtTreeMap.getElem?_insert, if_pos (compare_eq_iff_eq.mpr rfl)]
    · exact ih nodup.2 mem _

end Collect

section Search

/-- The first entry, in key order, with a property. -/
theorem find?_toList_eq_some {m : BTreeMap K A} {p : K × A → Bool} {k : K} {a : A} :
    m.toList.find? p = some (k, a) ↔
      m[k]? = some a ∧ p (k, a) = true ∧
        ∀ j b, m[j]? = some b → j < k → p (j, b) = false := by
  have hmem : ∀ j b, (j, b) ∈ m.toList ↔ m[j]? = some b := fun j b =>
    Std.ExtTreeMap.mem_toList_iff_getElem?_eq_some
  have hs := toList_sorted m
  rw [List.find?_eq_some_iff_append]
  constructor
  · rintro ⟨hp, as, bs, hl, has⟩
    rw [hl, List.pairwise_append] at hs
    refine ⟨?_, hp, ?_⟩
    · rw [← hmem, hl]
      simp
    · intro j b hj hlt
      rw [← hmem, hl, List.mem_append] at hj
      rcases hj with hj | hj
      · simpa using has _ hj
      · -- an entry from `k` on does not come before `k`
        exfalso
        rcases List.mem_cons.mp hj with heq | hj
        · injection heq with heq
          exact hlt.ne heq
        · exact (List.pairwise_cons.mp hs.2.1).1 _ hj |>.not_gt hlt
  · rintro ⟨hk, hp, hfirst⟩
    obtain ⟨as, bs, hl⟩ := List.append_of_mem ((hmem k a).mpr hk)
    refine ⟨hp, as, bs, hl, ?_⟩
    rintro ⟨j, b⟩ hj
    have hjm : m[j]? = some b := by
      rw [← hmem, hl]
      exact List.mem_append_left _ hj
    rw [hl, List.pairwise_append] at hs
    have hlt : j < k := hs.2.2 _ hj _ List.mem_cons_self
    simpa using hfirst j b hjm hlt

lemma find?_toList_eq_none {m : BTreeMap K A} {p : K × A → Bool} :
    m.toList.find? p = none ↔ ∀ k a, m[k]? = some a → p (k, a) = false := by
  rw [List.find?_eq_none]
  constructor
  · intro h k a hk
    simpa using h (k, a) (Std.ExtTreeMap.mem_toList_iff_getElem?_eq_some.mpr hk)
  · rintro h ⟨k, a⟩ hk
    simpa using h k a (Std.ExtTreeMap.mem_toList_iff_getElem?_eq_some.mp hk)

/-- The entry with the greatest key of a list, the last one of several (Rust `max_by_key`). -/
def maxByKey (l : List (K × A)) : Option (K × A) :=
  l.foldl (fun best p => match best with
    | none => some p
    | some b => if b.1 ≤ p.1 then some p else some b) none

/-- On entries in the order of their keys the greatest is the last. -/
lemma maxByKey_of_sorted {l : List (K × A)} (hl : l.Pairwise (fun p q => p.1 < q.1)) :
    maxByKey l = l.getLast? := by
  induction l using List.reverseRecOn with
  | nil => rfl
  | append_singleton l p ih =>
    rw [List.pairwise_append] at hl
    have hlast : maxByKey (l ++ [p]) = (match maxByKey l with
        | none => some p
        | some b => if b.1 ≤ p.1 then some p else some b) := by
      simp [maxByKey]
    rw [hlast, ih hl.1, List.getLast?_append]
    cases hb : l.getLast? with
    | none => rfl
    | some b =>
      have hlt : b.1 < p.1 := hl.2.2 b (List.mem_of_getLast? hb) p List.mem_cons_self
      simp [hlt.le]

/-- The greatest entry of a map. -/
theorem maxByKey_toList_eq_some {m : BTreeMap K A} {k : K} {a : A} :
    maxByKey m.toList = some (k, a) ↔ m[k]? = some a ∧ ∀ j ∈ m, j ≤ k := by
  have hs := toList_sorted m
  rw [maxByKey_of_sorted hs]
  constructor
  · intro h
    obtain ⟨l, hl⟩ := List.getLast?_eq_some_iff.mp h
    refine ⟨?_, ?_⟩
    · rw [← Std.ExtTreeMap.mem_toList_iff_getElem?_eq_some]
      exact List.mem_of_getLast? h
    · intro j hj
      obtain ⟨b, hb⟩ := mem_iff_exists.mp hj
      rw [← Std.ExtTreeMap.mem_toList_iff_getElem?_eq_some, hl, List.mem_append] at hb
      rw [hl, List.pairwise_append] at hs
      rcases hb with hb | hb
      · exact (hs.2.2 _ hb _ List.mem_cons_self).le
      · rw [List.mem_singleton] at hb
        injection hb with hb
        exact hb.le
  · rintro ⟨hk, hmax⟩
    cases hl : m.toList.getLast? with
    | none =>
      rw [List.getLast?_eq_none_iff] at hl
      rw [← Std.ExtTreeMap.mem_toList_iff_getElem?_eq_some, hl] at hk
      cases hk
    | some p =>
      obtain ⟨j, b⟩ := p
      have hj : m[j]? = some b :=
        Std.ExtTreeMap.mem_toList_iff_getElem?_eq_some.mp (List.mem_of_getLast? hl)
      have hle : j ≤ k := hmax j (mem_iff_exists.mpr ⟨b, hj⟩)
      obtain ⟨l, hl⟩ := List.getLast?_eq_some_iff.mp hl
      have hkj : k ≤ j := by
        rw [← Std.ExtTreeMap.mem_toList_iff_getElem?_eq_some, hl, List.mem_append] at hk
        rw [hl, List.pairwise_append] at hs
        rcases hk with hk | hk
        · exact (hs.2.2 _ hk _ List.mem_cons_self).le
        · rw [List.mem_singleton] at hk
          injection hk with hk
          exact hk.le
      obtain rfl := le_antisymm hle hkj
      rw [hj] at hk
      cases hk
      rfl

lemma maxByKey_toList_eq_none {m : BTreeMap K A} :
    maxByKey m.toList = none ↔ m.isEmpty = true := by
  rw [maxByKey_of_sorted (toList_sorted m), List.getLast?_eq_none_iff,
    Std.ExtTreeMap.toList_eq_nil_iff, Std.ExtTreeMap.isEmpty_iff]

end Search

end BTreeMap
