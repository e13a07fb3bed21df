import ArchipelagoXL.Tools.Rewriting

/-!
# Integers as doubles

Every integer below `2 ^ 53` is a double, and it is the shortest decimal of this double. So it comes back from its
double as it was.
-/

namespace ArchipelagoXL.Tools.F64

/-! ## Rounding -/

lemma roundEven_intCast (k : ℤ) : roundEven k = k := by
  have floor : (k : ℚ).floor = k := Rat.floor_intCast k
  rw [roundEven]
  simp only [floor, sub_self]
  rw [if_pos (.inl (by norm_num))]

lemma le_roundEven {q : ℚ} {k : ℤ} (le : (k : ℚ) ≤ q) : k ≤ roundEven q := by
  have down : k ≤ q.floor := Rat.le_floor_iff.mpr le
  rw [roundEven]
  split
  · exact down
  · omega

/-- An integer below `2 ^ 53` is a double. -/
lemma roundPos_natCast {n : ℕ} (small : n < 2 ^ 53) : roundPos n = .finite n := by
  have log : Nat.log 2 n ≤ 52 := Nat.le_of_lt_succ (Nat.log_lt_of_lt_pow' (by decide) small)
  have unit : max (Int.log 2 (n : ℚ) - 52) (-1074) = -((52 - Nat.log 2 n : ℕ) : ℤ) := by
    rw [Int.log_natCast]
    omega
  have scaled : (n : ℚ) / 2 ^ (-((52 - Nat.log 2 n : ℕ) : ℤ)) = ((n * 2 ^ (52 - Nat.log 2 n) : ℤ) : ℚ) := by
    rw [zpow_neg, zpow_natCast, div_inv_eq_mul]
    push_cast
    rfl
  have back : ((n * 2 ^ (52 - Nat.log 2 n) : ℤ) : ℚ) * 2 ^ (-((52 - Nat.log 2 n : ℕ) : ℤ)) = n := by
    rw [← scaled]
    exact div_mul_cancel₀ _ (by positivity)
  have below : (n : ℚ) < 2 ^ 1024 := by
    have : (n : ℚ) < 2 ^ 53 := by exact_mod_cast small
    exact this.trans (pow_lt_pow_right₀ (by norm_num) (by decide))
  rw [roundPos]
  simp only [unit, scaled, roundEven_intCast, back]
  rw [if_pos below]

/-- A larger integer is not next to one below `2 ^ 53`. -/
lemma roundPos_natCast_ne {n c : ℕ} (small : n < 2 ^ 53) (large : 2 ^ 53 ≤ c) : roundPos c ≠ .finite n := by
  have positive : (0 : ℚ) < c := by exact_mod_cast (by omega : 0 < c)
  have log : 53 ≤ Nat.log 2 c := Nat.le_log_of_pow_le (by decide) large
  have unit : max (Int.log 2 (c : ℚ) - 52) (-1074) = ((Nat.log 2 c - 52 : ℕ) : ℤ) := by
    rw [Int.log_natCast]
    omega
  have high : ((2 ^ 52 : ℤ) : ℚ) ≤ (c : ℚ) / 2 ^ (Nat.log 2 c - 52) := by
    rw [le_div_iff₀ (by positivity)]
    have : 2 ^ 52 * 2 ^ (Nat.log 2 c - 52) ≤ c := by
      rw [← pow_add, Nat.add_sub_cancel' (by omega)]
      exact Nat.pow_log_le_self 2 (by omega)
    exact_mod_cast this
  have near := le_roundEven high
  have above : (2 : ℚ) ^ 53 ≤ roundEven ((c : ℚ) / 2 ^ (Nat.log 2 c - 52)) * 2 ^ (Nat.log 2 c - 52) := by
    have base : ((2 ^ 52 : ℤ) : ℚ) ≤ roundEven ((c : ℚ) / 2 ^ (Nat.log 2 c - 52)) := by exact_mod_cast near
    have two : (2 : ℚ) ^ 1 ≤ 2 ^ (Nat.log 2 c - 52) := pow_le_pow_right₀ (by norm_num) (by omega)
    calc (2 : ℚ) ^ 53 = ((2 ^ 52 : ℤ) : ℚ) * 2 ^ 1 := by norm_num
      _ ≤ _ := mul_le_mul base two (by norm_num) (le_trans (by norm_num) base)
  rw [roundPos]
  simp only [unit, zpow_natCast]
  split
  · intro same
    have same : _ = (n : ℚ) := F64.finite.inj same
    have small : (n : ℚ) < 2 ^ 53 := by exact_mod_cast small
    rw [same] at above
    exact absurd small (not_lt.mpr above)
  · intro same
    cases same

/-- The only integer next to one below `2 ^ 53` is itself. -/
lemma eq_of_roundPos {n c : ℕ} (small : n < 2 ^ 53) (round : roundPos c = .finite n) : c = n := by
  rcases lt_or_ge c (2 ^ 53) with below | above
  · rw [roundPos_natCast below] at round
    exact_mod_cast F64.finite.inj round
  · exact absurd round (roundPos_natCast_ne small above)

/-! ## Decimals -/

/-- A decimal without digits after the point that stands for such an integer is that integer. -/
lemma decimal_value {n p : ℕ} (small : n < 2 ^ 53) (few : p ≤ Nat.log 10 n + 1) {d : ℕ × ℤ}
    (found : decimal n p = some d) : (d.1 : ℚ) * 10 ^ d.2 = n := by
  have shift : Int.log 10 (n : ℚ) + 1 - p = ((Nat.log 10 n + 1 - p : ℕ) : ℤ) := by
    rw [Int.log_natCast]
    omega
  rw [decimal] at found
  simp only [shift] at found
  obtain ⟨k, here, rfl⟩ := Option.map_eq_some_iff.mp found
  have round := List.find?_some here
  rw [beq_iff_eq, zpow_natCast] at round
  have value : k * 10 ^ (Nat.log 10 n + 1 - p) = n := eq_of_roundPos small (by exact_mod_cast round)
  have whole : (k : ℚ) * 10 ^ ((Nat.log 10 n + 1 - p : ℕ) : ℤ) = n := by
    rw [zpow_natCast]
    exact_mod_cast value
  split
  case isTrue zero =>
    obtain ⟨k, rfl⟩ := Nat.dvd_of_mod_eq_zero zero
    rw [Nat.mul_div_cancel_left k (by decide), zpow_add_one₀ (by norm_num), ← whole]
    push_cast
    ring
  case isFalse => exact whole

lemma decimal_isSome {n : ℕ} (small : n < 2 ^ 53) : (decimal n (Nat.log 10 n + 1)).isSome := by
  have shift : Int.log 10 (n : ℚ) + 1 - (Nat.log 10 n + 1 : ℕ) = 0 := by
    rw [Int.log_natCast]
    omega
  have floor : (n : ℚ).floor.toNat = n := by
    rw [show (n : ℚ) = ((n : ℤ) : ℚ) from rfl, Rat.floor_intCast, Int.toNat_natCast]
  have round : roundEven (n : ℚ) = n := roundEven_intCast n
  rw [decimal]
  simp only [shift, zpow_zero, div_one, mul_one, floor, round, if_true, Option.isSome_map]
  rw [List.find?_cons_of_pos (by rw [roundPos_natCast small]; exact beq_self_eq_true _)]
  rfl

/-- The shortest decimal of a double that is an integer below `2 ^ 53` is that integer. -/
lemma shortest_value {n : ℕ} (small : n < 2 ^ 53) : ((shortest n).1 : ℚ) * 10 ^ (shortest n).2 = n := by
  have digits : Nat.log 10 n + 1 ≤ 17 := by
    have : Nat.log 10 n < 16 := Nat.log_lt_of_lt_pow' (by decide) (small.trans (by norm_num))
    omega
  have member : Nat.log 10 n + 1 ∈ (List.range 17).map (· + 1) :=
    List.mem_map.mpr ⟨Nat.log 10 n, List.mem_range.mpr (by omega), rfl⟩
  cases found : ((List.range 17).map (· + 1)).findSome? (decimal n) with
  | none =>
    have none := List.findSome?_eq_none_iff.mp found _ member
    have some := decimal_isSome small
    rw [none] at some
    cases some
  | some d =>
    rw [shortest, found, Option.getD_some]
    obtain ⟨before, p, after, split, here, none⟩ := List.findSome?_eq_some_iff.mp found
    have sorted : ((List.range 17).map (· + 1)).Pairwise (· < ·) := by decide
    rw [split] at member sorted
    apply decimal_value small _ here
    rcases List.mem_append.mp member with early | late
    · have some := decimal_isSome small
      rw [none _ early] at some
      cases some
    · rcases List.mem_cons.mp late with same | late
      · exact same.ge
      · exact (List.rel_of_pairwise_cons (List.pairwise_append.mp sorted).2.1 late).le

end ArchipelagoXL.Tools.F64
