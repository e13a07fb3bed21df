import ArchipelagoXL.Tools.Rolls

/-!
# Random ranges

A check of a random range should hold where it holds for a number of the range. The comparisons of numbers do. The
comparisons of texts take the text of the check for a number, so they go wrong for a text that is not the decimal
text of one; a range to compare with that has its bounds in the wrong order is met by ranges around it; and a range
with a bound that does not fit into 64 bits is taken for a text.
-/

namespace ArchipelagoXL.Tools

/-- Which numbers of a range come more often. -/
inductive Leaning where
  | even
  | low
  | middle
  | high

def Leaning.parts : Leaning → List String
  | even => []
  | low => ["low"]
  | middle => ["middle"]
  | high => ["high"]

def rangeParts (l : Leaning) (a b : ℕ) : List String := ["random", "range"] ++ (l.parts ++ [toString a, toString b])

def rangeText (l : Leaning) (a b : ℕ) : String := "-".intercalate (rangeParts l a b)

/-- Some number between the bounds passes the check; numbers have 64 bits. -/
def CanRoll (re : RegexLib) (a b : ℕ) (check : RuleCheck) : Prop :=
  ∃ v : ℤ, min a b ≤ v ∧ v ≤ max a b ∧ v < 2 ^ 63 ∧ checkSingleValue re (.integer v) check = .ok true

/-- Where the check of a range that is read as one is the check of its numbers. -/
def RangeExact (min max : ℤ) : RuleCheck → Prop
  | .equals value => ∀ v, parseI64 value = some v → min ≤ v → v ≤ max → value = toString v
  | .notEquals value => ∃ v, parseI64 value = some v ∧ (min = max → v = min → value = toString v)
  | .range rmin rmax => rmin ≤ rmax ∨ max < rmin ∨ rmax < min
  | _ => True

/-- Where the check of a range that is taken for a text is the check of its numbers. -/
def TextExact (text : String) (min : ℤ) : RuleCheck → Prop
  | .truthy => min < 2 ^ 63
  | .notTruthy => min ≠ 0
  | .equals value => value ≠ text ∧ ∀ v, min ≤ v → v < 2 ^ 63 → value ≠ toString v
  | .notEquals value =>
    if value = text then 2 ^ 63 ≤ min else min < 2 ^ 63 ∧ (min = 2 ^ 63 - 1 → value ≠ toString min)
  | .greaterThan value => 2 ^ 63 ≤ min ∨ 2 ^ 63 - 1 ≤ value
  | .lessThan value => 2 ^ 63 ≤ min ∨ value ≤ min
  | .range rmin rmax => 2 ^ 63 ≤ min ∨ 2 ^ 63 ≤ rmin ∨ rmax < min ∨ rmax < rmin
  | _ => True

/-- Where the check of a range is the check of its numbers. -/
def JudgedByRolls (l : Leaning) (a b : ℕ) (check : RuleCheck) : Prop :=
  if max a b < 2 ^ 63 then RangeExact (min a b : ℕ) (max a b : ℕ) check
  else TextExact (rangeText l a b) (min a b : ℕ) check

/-! ## Reading a range -/

section
variable (l : Leaning) (a b : ℕ)

lemma parseI64_toString_eq (i : ℤ) : parseI64 (toString i) = if -2 ^ 63 ≤ i ∧ i < 2 ^ 63 then some i else none := by
  rw [parseI64, parseSigned_toString, Option.filter_some]
  simp only [decide_eq_true_eq]

lemma dash_notMem {n : ℕ} : '-' ∉ (toString n).toList := by
  intro mem
  have digits : (toString n).toList = Nat.toDigits 10 n := Nat.toList_repr
  rw [digits] at mem
  exact absurd (Nat.isDigit_of_mem_toDigits (by decide) (by decide) mem) (by decide)

lemma dash_notMem_parts : ∀ p ∈ rangeParts l a b, '-' ∉ p.toList := by
  intro p mem
  rcases List.mem_append.mp mem with mem | mem
  · rcases List.mem_cons.mp mem with rfl | mem
    · decide
    · rw [List.mem_singleton.mp mem]
      decide
  · rcases List.mem_append.mp mem with mem | mem
    · cases l with
      | even => cases mem
      | _ =>
        rw [List.mem_singleton.mp mem]
        decide
    · rcases List.mem_cons.mp mem with rfl | mem
      · exact dash_notMem
      · rw [List.mem_singleton.mp mem]
        exact dash_notMem

lemma splitAt_rangeText : splitAt '-' (rangeText l a b) = rangeParts l a b := by
  have noDash : ∀ p ∈ (rangeParts l a b).map String.toList, '-' ∉ p :=
    List.forall_mem_map.mpr (dash_notMem_parts l a b)
  have dash : "-".toList = ['-'] := rfl
  have back : String.ofList ∘ String.toList = id := funext fun _ => String.ofList_toList
  rw [splitAt, rangeText, String.toList_intercalate, dash,
    List.splitOn_intercalate '-' noDash (List.cons_ne_nil _ _), List.map_map, back, List.map_id]

/-- The text starts with its kind. -/
lemma rangeText_starts : "random-range".toList.isPrefixOf (rangeText l a b).toList = true := by
  have rest : l.parts ++ [toString a, toString b] ≠ [] := by simp
  have start : "-".intercalate ["random", "range"] = "random-range" := rfl
  rw [rangeText, rangeParts, String.intercalate_append_of_ne_nil (List.cons_ne_nil _ _) rest, start,
    String.append_assoc, String.toList_append]
  exact List.isPrefixOf_iff_prefix.mpr (List.prefix_append _ _)

lemma rangeText_ne {s : String} (short : (splitAt '-' s).length < 4) : rangeText l a b ≠ s := by
  rintro rfl
  rw [splitAt_rangeText, rangeParts, List.length_append, List.length_append] at short
  simp only [List.length_cons, List.length_nil] at short
  omega

/-- A range whose bounds have 64 bits is read as one. -/
lemma parseRandom_rangeText : parseRandom (.string (rangeText l a b)) =
    if max a b < 2 ^ 63 then some (some (((min a b : ℕ) : ℤ), ((max a b : ℕ) : ℤ))) else none := by
  have words : ¬ (rangeText l a b = "random" ∨ rangeText l a b = "random-low" ∨ rangeText l a b = "random-middle" ∨
      rangeText l a b = "random-high") := by
    rintro (h | h | h | h)
    · exact rangeText_ne l a b (by decide +kernel) h
    · exact rangeText_ne l a b (by decide +kernel) h
    · exact rangeText_ne l a b (by decide +kernel) h
    · exact rangeText_ne l a b (by decide +kernel) h
  have long : 4 ≤ (rangeParts l a b).length := by simp [rangeParts]
  have bounds : (rangeParts l a b)[(rangeParts l a b).length - 2]? = some (toString (a : ℤ)) ∧
      (rangeParts l a b)[(rangeParts l a b).length - 1]? = some (toString (b : ℤ)) := by
    cases l with
    | _ => exact ⟨rfl, rfl⟩
  rw [parseRandom, Value.asStr, Option.bind_some, if_neg words, if_pos (rangeText_starts l a b), splitAt_rangeText]
  dsimp only
  rw [if_pos long, bounds.1, bounds.2, Option.bind_some, Option.bind_some, parseI64_toString_eq, parseI64_toString_eq]
  by_cases fits : a < 2 ^ 63 ∧ b < 2 ^ 63
  · rw [if_pos (by omega), if_pos (by omega), if_pos (by omega), Nat.cast_min, Nat.cast_max]
  · have large : ¬ max a b < 2 ^ 63 := by omega
    rw [if_neg large]
    by_cases first : a < 2 ^ 63
    · have second : ¬ (-2 ^ 63 ≤ (b : ℤ) ∧ (b : ℤ) < 2 ^ 63) := by omega
      rw [if_neg second]
      split
      case h_1 isNone => cases isNone
      case h_2 => rfl
    · have first : ¬ (-2 ^ 63 ≤ (a : ℤ) ∧ (a : ℤ) < 2 ^ 63) := by omega
      rw [if_neg first]

/-- A range that is taken for a text is no number. -/
lemma parseI64_rangeText : parseI64 (rangeText l a b) = none := by
  have starts : ∃ rest, (rangeText l a b).toList = 'r' :: rest := by
    obtain ⟨rest, whole⟩ := List.isPrefixOf_iff_prefix.mp (rangeText_starts l a b)
    exact ⟨_, whole.symm⟩
  obtain ⟨rest, starts⟩ := starts
  rw [parseI64, starts]
  have letter : parseDigits ('r' :: rest) = none := by
    rw [parseDigits, if_neg]
    rintro ⟨_, digits⟩
    rw [List.all_cons] at digits
    cases digits
  have noSign : parseSigned ('r' :: rest) = none := by
    rw [parseSigned, letter]
    · rfl
    · simp
    · simp
  rw [noSign]
  rfl

lemma isTrueish_rangeText : isTrueish (.string (rangeText l a b)) = true := by
  have lower : "random".toList.isPrefixOf (toLowercase (rangeText l a b)) = true := by
    obtain ⟨rest, whole⟩ := List.isPrefixOf_iff_prefix.mp (rangeText_starts l a b)
    rw [toLowercase, ← whole, List.map_append]
    rfl
  simp only [isTrueish, Value.asBool, Value.asInteger, Value.asStr, parseI64_rangeText, lower, Bool.or_true,
    Bool.true_or]

end

/-! ## Checks of a range -/

section
variable {re : RegexLib} {l : Leaning} {a b : ℕ} {check : RuleCheck}

/-- Whether a number passes a check. -/
lemma canRoll_iff (ofValue : check.ofValue = true) :
    CanRoll re a b check ↔
      ∃ v : ℤ, (min a b : ℕ) ≤ v ∧ v ≤ (max a b : ℕ) ∧ v < 2 ^ 63 ∧ passes re check (.integer v) = true := by
  have each : ∀ v : ℤ, checkSingleValue re (.integer v) check = .ok true ↔ passes re check (.integer v) = true := by
    intro v
    rw [checkSingleValue_eq ofValue, Except.ok.injEq]
  simp only [CanRoll, each]

lemma evaluateCheck_range (ofValue : check.ofValue = true) :
    evaluateCheck re (.string (rangeText l a b)) check = .ok true ↔
      passes re check (.string (rangeText l a b)) = true := by
  rw [evaluateCheck_eq ofValue (.scalar rfl), Except.ok.injEq, outcomes_of_isScalar rfl, List.any_cons, List.any_nil,
    Bool.or_false]

/-! ## What numbers pass -/

section Numbers
variable (v : ℤ)

lemma passes_truthy : passes re .truthy (.integer v) = (v != 0) := rfl

lemma passes_notTruthy : passes re .notTruthy (.integer v) = !(v != 0) := rfl

lemma passes_equals {value : String} : passes re (.equals value) (.integer v) = (toString v == value) := rfl

lemma passes_notEquals {value : String} : passes re (.notEquals value) (.integer v) = (toString v != value) := rfl

lemma passes_greaterThan {value : ℤ} : passes re (.greaterThan value) (.integer v) = decide (value < v) := rfl

lemma passes_lessThan {value : ℤ} : passes re (.lessThan value) (.integer v) = decide (v < value) := rfl

lemma passes_range {rmin rmax : ℤ} :
    passes re (.range rmin rmax) (.integer v) = (decide (rmin ≤ v) && decide (v ≤ rmax)) := rfl

end Numbers

/-- A range that is read as one. -/
lemma rangeExact_iff {min max : ℤ} (bounds : 0 ≤ min ∧ min ≤ max ∧ max < 2 ^ 63) (ofValue : check.ofValue = true) :
    (checkRandom (some (min, max)) check = true ↔
      ∃ v, min ≤ v ∧ v ≤ max ∧ v < 2 ^ 63 ∧ passes re check (.integer v) = true) ↔ RangeExact min max check := by
  obtain ⟨positive, ordered, small⟩ := bounds
  cases check with
  | truthy =>
    refine ⟨fun _ => trivial, fun _ => ?_⟩
    simp only [passes_truthy, checkRandom, Bool.or_eq_true, bne_iff_ne]
    constructor
    · exact fun some => ⟨max, ordered, le_rfl, small, by omega⟩
    · rintro ⟨v, low, high, _, some⟩
      omega
  | notTruthy =>
    refine ⟨fun _ => trivial, fun _ => ?_⟩
    simp only [passes_notTruthy, checkRandom, Bool.and_eq_true, decide_eq_true_eq, Bool.not_eq_true',
      bne_eq_false_iff_eq]
    constructor
    · exact fun zero => ⟨min, le_rfl, ordered, by omega, by omega⟩
    · rintro ⟨v, low, high, _, zero⟩
      omega
  | equals value =>
    simp only [passes_equals, checkRandom, RangeExact, Option.any_eq_true, Bool.and_eq_true, decide_eq_true_eq,
      beq_iff_eq]
    constructor
    · rintro exact_ v isNumber low high
      obtain ⟨w, _, _, _, isText⟩ := exact_.mp ⟨v, isNumber, low, high⟩
      have same := @parseI64_toString w ⟨by omega, by omega⟩
      rw [isText, isNumber] at same
      cases same
      exact isText.symm
    · intro texts
      constructor
      · rintro ⟨v, isNumber, low, high⟩
        exact ⟨v, low, high, by omega, (texts v isNumber low high).symm⟩
      · rintro ⟨v, low, high, _, rfl⟩
        exact ⟨v, parseI64_toString ⟨by omega, by omega⟩, low, high⟩
  | notEquals value =>
    simp only [passes_notEquals, checkRandom, RangeExact, Option.any_eq_true, Bool.or_eq_true, bne_iff_ne]
    constructor
    · intro exact_
      by_cases other : ∃ v : ℤ, min ≤ v ∧ v ≤ max ∧ v < 2 ^ 63 ∧ toString v ≠ value
      · obtain ⟨v, isNumber, differs⟩ := exact_.mpr other
        exact ⟨v, isNumber, fun one first => by omega⟩
      · have texts : ∀ n : ℤ, min ≤ n → n ≤ max → toString n = value := by
          intro n low high
          by_contra differs
          exact other ⟨n, low, high, by omega, differs⟩
        obtain ⟨_, isNumber⟩ := single_of_texts ordered ⟨by omega, small⟩ texts
        exact ⟨min, isNumber, fun _ _ => (texts min le_rfl ordered).symm⟩
    · rintro ⟨v, isNumber, isText⟩
      constructor
      · rintro ⟨w, isNumber', differs⟩
        cases isNumber.symm.trans isNumber'
        by_contra never
        have texts : ∀ n : ℤ, min ≤ n → n ≤ max → toString n = value := by
          intro n low high
          by_contra differs
          exact never ⟨n, low, high, by omega, differs⟩
        obtain ⟨one, isFirst⟩ := single_of_texts ordered ⟨by omega, small⟩ texts
        cases isNumber.symm.trans isFirst
        exact differs.elim (fun several => several one) fun other => other rfl
      · rintro ⟨w, low, high, _, differs⟩
        refine ⟨v, isNumber, ?_⟩
        by_contra same
        have one : min = max ∧ v = min := by omega
        have only : w = v := by omega
        rw [only] at differs
        exact differs (isText one.1 one.2).symm
  | greaterThan value =>
    refine ⟨fun _ => trivial, fun _ => ?_⟩
    simp only [passes_greaterThan, checkRandom, decide_eq_true_eq]
    constructor
    · exact fun more => ⟨max, ordered, le_rfl, small, more⟩
    · rintro ⟨v, low, high, _, more⟩
      omega
  | lessThan value =>
    refine ⟨fun _ => trivial, fun _ => ?_⟩
    simp only [passes_lessThan, checkRandom, decide_eq_true_eq]
    constructor
    · exact fun less => ⟨min, le_rfl, ordered, by omega, less⟩
    · rintro ⟨v, low, high, _, less⟩
      omega
  | range rmin rmax =>
    simp only [passes_range, checkRandom, RangeExact, Bool.and_eq_true, decide_eq_true_eq]
    constructor
    · intro exact_
      by_contra crossed
      obtain ⟨v, _, _, _, between⟩ := exact_.mp (by omega)
      omega
    · intro _
      constructor
      · intro meet
        exact ⟨Max.max min rmin, by omega, by omega, by omega, by omega, by omega⟩
      · rintro ⟨v, low, high, _, between⟩
        omega
  | regex | contains | notContains | count | exists_ | notExists => cases ofValue

/-- A range that is taken for a text. -/
lemma textExact_iff {text : String} (noRange : parseRandom (.string text) = none)
    (truthy : isTrueish (.string text) = true) (noNumber : parseI64 text = none) {min max : ℤ}
    (bounds : 0 ≤ min ∧ min ≤ max ∧ 2 ^ 63 ≤ max) (ofValue : check.ofValue = true) :
    (passes re check (.string text) = true ↔
      ∃ v, min ≤ v ∧ v ≤ max ∧ v < 2 ^ 63 ∧ passes re check (.integer v) = true) ↔ TextExact text min check := by
  obtain ⟨positive, ordered, large⟩ := bounds
  have noInteger : yamlValueAsI64 (.string text) = none := noNumber
  have notText : ∀ v : ℤ, min ≤ v → v < 2 ^ 63 → toString v ≠ text := by
    rintro v low fits rfl
    rw [parseI64_toString ⟨by omega, by omega⟩] at noNumber
    cases noNumber
  cases check with
  | truthy =>
    have here : passes re .truthy (.string text) = true := by
      rw [passes, checkSingleValue.eq_def, noRange, ← truthy]
    simp only [passes_truthy, here, TextExact, bne_iff_ne, true_iff]
    constructor
    · rintro ⟨v, low, high, fits, some⟩
      omega
    · exact fun fits => ⟨2 ^ 63 - 1, by omega, by omega, by omega, by omega⟩
  | notTruthy =>
    have here : passes re .notTruthy (.string text) = false := by
      rw [passes, checkSingleValue.eq_def, noRange]
      dsimp only
      rw [truthy]
      rfl
    simp only [passes_notTruthy, here, TextExact, Bool.not_eq_true', bne_eq_false_iff_eq, Bool.false_eq_true, false_iff]
    constructor
    · exact fun never zero => never ⟨0, by omega, by omega, by omega, rfl⟩
    · rintro some ⟨v, low, high, fits, zero⟩
      omega
  | equals value =>
    have here : passes re (.equals value) (.string text) = (text == value) := by
      rw [passes, checkSingleValue.eq_def, noRange]
      rfl
    simp only [passes_equals, here, TextExact, beq_iff_eq]
    constructor
    · intro exact_
      have differs : value ≠ text := by
        intro same
        obtain ⟨v, low, _, fits, isText⟩ := exact_.mp same.symm
        exact notText v low fits (isText.trans same)
      exact ⟨differs, fun v low fits isText => differs (exact_.mpr ⟨v, low, by omega, fits, isText.symm⟩).symm⟩
    · rintro ⟨differs, never⟩
      constructor
      · exact fun same => (differs same.symm).elim
      · rintro ⟨v, low, _, fits, isText⟩
        exact (never v low fits isText.symm).elim
  | notEquals value =>
    have here : passes re (.notEquals value) (.string text) = (text != value) := by
      rw [passes, checkSingleValue.eq_def, noRange]
      rfl
    simp only [passes_notEquals, here, TextExact, bne_iff_ne]
    split
    case isTrue same =>
      rw [same]
      constructor
      · intro exact_
        by_contra low
        exact exact_.mpr ⟨min, le_rfl, ordered, by omega, notText min le_rfl (by omega)⟩ rfl
      · intro high
        constructor
        · exact fun differs => (differs rfl).elim
        · rintro ⟨v, low, _, fits, _⟩
          omega
    case isFalse differs =>
      rw [iff_true_left (Ne.symm differs)]
      constructor
      · rintro ⟨v, low, _, fits, other⟩
        refine ⟨by omega, fun last isText => other ?_⟩
        have only : v = min := by omega
        rw [only, isText]
      · rintro ⟨fits, last⟩
        by_contra never
        have texts : ∀ n : ℤ, min ≤ n → n ≤ 2 ^ 63 - 1 → toString n = value := by
          intro n low high
          by_contra other
          exact never ⟨n, low, by omega, by omega, other⟩
        obtain ⟨one, _⟩ := single_of_texts (by omega) ⟨by omega, by omega⟩ texts
        exact last one (texts min le_rfl (by omega)).symm
  | greaterThan value =>
    have here : passes re (.greaterThan value) (.string text) = false := by
      rw [passes, checkSingleValue.eq_def, noRange]
      dsimp only
      rw [noInteger]
      rfl
    simp only [passes_greaterThan, here, TextExact, decide_eq_true_eq, Bool.false_eq_true, false_iff]
    constructor
    · intro never
      by_contra crossed
      exact never ⟨2 ^ 63 - 1, by omega, by omega, by omega, by omega⟩
    · rintro low ⟨v, _, _, _, more⟩
      omega
  | lessThan value =>
    have here : passes re (.lessThan value) (.string text) = false := by
      rw [passes, checkSingleValue.eq_def, noRange]
      dsimp only
      rw [noInteger]
      rfl
    simp only [passes_lessThan, here, TextExact, decide_eq_true_eq, Bool.false_eq_true, false_iff]
    constructor
    · intro never
      by_contra crossed
      exact never ⟨min, by omega, by omega, by omega, by omega⟩
    · rintro high ⟨v, _, _, _, less⟩
      omega
  | range rmin rmax =>
    have here : passes re (.range rmin rmax) (.string text) = false := by
      rw [passes, checkSingleValue.eq_def, noRange]
      dsimp only
      rw [noInteger]
      rfl
    simp only [passes_range, here, TextExact, Bool.and_eq_true, decide_eq_true_eq, Bool.false_eq_true, false_iff]
    constructor
    · intro never
      by_contra meet
      exact never ⟨Max.max min rmin, by omega, by omega, by omega, by omega, by omega⟩
    · rintro apart ⟨v, low, high, fits, between⟩
      omega
  | regex | contains | notContains | count | exists_ | notExists => cases ofValue

/-- A random range is judged by what it can roll exactly where the text of the check is the decimal text of a number,
its range is not crossed, and the bounds of the random range have 64 bits; some checks do not mind. -/
theorem randomRange_judged_iff (re : RegexLib) (l : Leaning) (a b : ℕ) {check : RuleCheck}
    (ofValue : check.ofValue = true) :
    (evaluateCheck re (.string (rangeText l a b)) check = .ok true ↔ CanRoll re a b check) ↔
      JudgedByRolls l a b check := by
  have read := parseRandom_rangeText l a b
  rw [evaluateCheck_range ofValue, canRoll_iff ofValue, JudgedByRolls]
  by_cases fits : max a b < 2 ^ 63
  · rw [if_pos fits] at read
    rw [if_pos fits, passes_of_range read]
    exact rangeExact_iff ⟨by omega, by omega, by omega⟩ ofValue
  · rw [if_neg fits] at read
    rw [if_neg fits]
    exact textExact_iff read (isTrueish_rangeText l a b) (parseI64_rangeText l a b) ⟨by omega, by omega, by omega⟩
      ofValue

end

/-- That `random-range-low-1-10` can be 5 is judged by what it can roll. -/
theorem five_judged :
    evaluateCheck noPatterns (.string (rangeText .low 1 10)) (.equals "5") = .ok true ↔
      CanRoll noPatterns 1 10 (.equals "5") := by
  apply (randomRange_judged_iff noPatterns .low 1 10 rfl).mpr
  have isNumber : parseI64 "5" = some 5 := by decide +kernel
  rw [JudgedByRolls, if_pos (by decide)]
  intro v read _ _
  cases isNumber.symm.trans read
  rfl

/-- Each number of `random-range-1-3` differs from `vanilla`, and the range is said not to. -/
theorem vanilla_not_judged : ¬ ∀ (re : RegexLib) (l : Leaning) (a b : ℕ) (check : RuleCheck), check.ofValue = true →
    (evaluateCheck re (.string (rangeText l a b)) check = .ok true ↔ CanRoll re a b check) := by
  intro claim
  have rolls : CanRoll noPatterns 1 3 (.notEquals "vanilla") :=
    ⟨2, by decide, by decide, by decide, by decide +kernel⟩
  have judged := (claim noPatterns .even 1 3 (.notEquals "vanilla") rfl).mpr rolls
  have passes : evaluateCheck noPatterns (.string (rangeText .even 1 3)) (.notEquals "vanilla") = .ok false := by
    decide +kernel
  rw [passes] at judged
  cases judged

end ArchipelagoXL.Tools
